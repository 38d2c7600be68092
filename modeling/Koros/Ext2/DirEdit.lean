import Koros.Ext2.DirImage
import Koros.Ext2.Stop

/-!
# Changing a directory

`add_dir_entry` and `remove_dir_entry` on a filesystem: a directory is read as a whole, one of its blocks is written back,
or a block is appended.

- `demoteFromHtree_runs`, `dirData_runs`, `writeDirBlock_runs`: the parts, which cannot fail on a writable filesystem;
- `removeDirEntry_removes`: `remove_dir_entry` removes the first entry with a name, or finds none.
-/
set_option autoImplicit false

namespace Koros.Ext2

open Koros.Lib Xattr

section Parts

variable {fs fs' : Ext2Fs} {P : Nat → Prop} {n : Nat} {r : RawInode}

theorem writeInodeToDisk_runs (hs : fs.Sound P) (hr : fs.inodeCache n = some r) (hro : fs.readOnly = false) :
    ∃ fs', writeInodeToDisk n fs = .ok ⟨⟩ fs' := by
  obtain ⟨b, off, hplace, htable, hoff⟩ := tablePlace_spec hs.toPlaced (hs.cached n r hr)
  have hmin := hs.accepted.inodeSize.1
  exact ⟨_, writeInodeToDisk_at hplace (hs.tables b htable).1 (by omega) hro hr⟩

/-! ## The index flag -/

/-- The inode of a directory without the index flag. -/
def indexCleared (r : RawInode) : RawInode := r.setFlags (r.flags &&& (0xFFFFFFFF ^^^ EXT2_INDEX_FL))

/-- Nothing has changed but the index flag of a directory that had it, in memory and on disk. -/
def Demoted (n : Nat) (r : RawInode) (fs fs' : Ext2Fs) : Prop :=
  if r.flags &&& EXT2_INDEX_FL = 0 then fs' = fs else WrittenBack n (fs.setInode n (some (indexCleared r))) fs'

theorem sameRefs_indexCleared (r : RawInode) : r.SameRefs (indexCleared r) := RawInode.sameRefs_put (by omega)

theorem demoteFromHtree_ok (hs : fs.Sound P) (hr : fs.inodeCache n = some r) (hkind : r.HoldsData) {u : PUnit}
    (hrun : demoteFromHtree n fs = .ok u fs') : Demoted n r fs fs' := by
  obtain ⟨r', hr', hrun⟩ := raw_bind_ok hrun
  rw [hr, Option.some.injEq] at hr'
  subst hr'
  rcases when_ok hrun with ⟨hflag, hrun⟩ | ⟨hflag, hfs⟩
  · obtain ⟨r', hr', hrun⟩ := modifyRaw_bind_ok hrun
    rw [hr, Option.some.injEq] at hr'
    subst hr'
    rw [Demoted, if_neg hflag]
    exact writeInodeToDisk_ok (hs.keep hr (sameRefs_indexCleared r) hkind.ne_link).sound hrun
  · rw [Demoted, if_pos (not_not.1 hflag)]
    exact hfs

theorem demoteFromHtree_runs (hs : fs.Sound P) (hr : fs.inodeCache n = some r) (hkind : r.HoldsData)
    (hro : fs.readOnly = false) : ∃ fs', demoteFromHtree n fs = .ok ⟨⟩ fs' := by
  rw [demoteFromHtree, bind_ok (raw_eq hr)]
  by_cases hflag : r.flags &&& EXT2_INDEX_FL ≠ 0
  · rw [if_pos hflag, bind_ok (modifyRaw_eq hr _)]
    exact writeInodeToDisk_runs (r := indexCleared r) (hs.keep hr (sameRefs_indexCleared r) hkind.ne_link).sound
      (Function.update_self ..) hro
  · rw [if_neg hflag]
    exact ⟨fs, rfl⟩

/-- The rest of the filesystem is as before. -/
theorem Demoted.kept (h : Demoted n r fs fs') (hs : fs.Sound P) (hr : fs.inodeCache n = some r) (hkind : r.HoldsData) :
    Kept P n fs fs' ∧ ∃ r', fs'.inodeCache n = some r' ∧ r.SameRefs r' ∧ r'.size32 = r.size32 := by
  unfold Demoted at h
  split at h
  · rw [h]
    exact ⟨.refl hs n, r, hr, .refl r, rfl⟩
  · have hkept := hs.keep hr (sameRefs_indexCleared r) hkind.ne_link
    refine ⟨hkept.trans (hkept.sound.keep_writtenBack h), indexCleared r, ?_, sameRefs_indexCleared r, ?_⟩
    · rw [h.cache]
      exact Function.update_self ..
    · exact RawInode.get_put_of_disjoint (by omega) (by omega)

/-! ## Reading -/

theorem fileSize_of_dir (hr : fs.inodeCache n = some r) (hdir : r.fmt = EXT2_S_IFDIR) : fs.fileSize n = r.size32 := by
  rw [fileSize_of_cached hr, RawInode.fileSize, if_neg ?_]
  rintro ⟨hreg, -⟩
  rw [hdir] at hreg
  cases hreg

theorem dirData_ok (hs : fs.Sound P) (hr : fs.inodeCache n = some r) (hdir : r.fmt = EXT2_S_IFDIR) {data : Bytes} {len : Nat}
    (hrun : dirData n fs = .ok (data, len) fs') : fs' = fs ∧ len = r.size32 ∧ ∀ j < len, data j = fs.content n j := by
  obtain ⟨r', hr', hrun⟩ := raw_bind_ok hrun
  rw [hr, Option.some.injEq] at hr'
  subst hr'
  by_cases h0 : r.size32 = 0
  · rw [if_pos h0] at hrun
    obtain ⟨hdata, hfs⟩ := pure_eq_ok hrun
    obtain ⟨rfl, rfl⟩ := Prod.mk.inj hdata
    exact ⟨hfs, h0.symm, fun j hj => absurd hj (Nat.not_lt_zero j)⟩
  · rw [if_neg h0] at hrun
    obtain ⟨⟨buf, count⟩, fs₁, hread, hrun⟩ := bind_eq_ok hrun
    obtain ⟨hfs₁, hcount, hbuf⟩ := readAt_ok hs hr (RawInode.HoldsData.mapsBlocks (.inr hdir) _) hread
    obtain ⟨hdata, hfs⟩ := pure_eq_ok hrun
    obtain ⟨rfl, rfl⟩ := Prod.mk.inj hdata
    rw [fileSize_of_dir hr hdir] at hcount
    refine ⟨hfs.trans hfs₁, rfl, fun j hj => ?_⟩
    have hlt : r.size32 < 2 ^ 32 := leNat_lt
    have hpos := blockSize_pos fs
    rw [hbuf j (by omega), Nat.zero_add, byteAt_eq_content (Nat.lt_of_lt_of_le (Nat.lt_trans hj hlt)
      (Nat.le_mul_of_pos_right _ hpos))]

/-- All blocks of a directory are there. -/
theorem dirData_runs (hs : fs.Sound P) (hr : fs.inodeCache n = some r) (hdir : r.fmt = EXT2_S_IFDIR)
    (hmap : ∀ j < r.size32, fs.blockAt n (j / fs.blockSize) ≠ 0) :
    ∃ data, dirData n fs = .ok (data, r.size32) fs := by
  rw [dirData, bind_ok (raw_eq hr)]
  by_cases h0 : r.size32 = 0
  · rw [if_pos h0, h0]
    exact ⟨_, rfl⟩
  · have hlt : r.size32 < 2 ^ 32 := leNat_lt
    obtain ⟨buf, hread⟩ := readAt_runs hs hr (RawInode.HoldsData.mapsBlocks (.inr hdir) _) 0 r.size32
      (by rw [fileSize_of_dir hr hdir]; omega) fun i hi => by
        rw [Nat.zero_add, Nat.mod_eq_of_lt (Nat.lt_of_le_of_lt (Nat.div_le_self ..) (by omega))]
        exact hmap i hi
    rw [if_neg h0, bind_ok hread]
    exact ⟨buf, rfl⟩

/-! ## Writing a block -/

/-- A block that is there is not allocated again. -/
theorem allocateBlockForOffset_eq (hs : fs.Sound P) (hr : fs.inodeCache n = some r)
    (hmaps : r.mapsBlocks fs.sectors = true) {q : Nat} (hne : fs.blockAt n q ≠ 0) (zeroed : Bool) :
    allocateBlockForOffset n q zeroed fs = .ok (fs.blockAt n q, 0) fs := by
  rw [allocateBlockForOffset, bind_ok (resolveBlockId_eq hs hr hmaps hne), if_pos hne]
  rfl

/-- The round of the loop for one full block that is there. -/
theorem writeChunk_one (hs : fs.Sound P) (hr : fs.inodeCache n = some r) (hmaps : r.mapsBlocks fs.sectors = true)
    (hro : fs.readOnly = false) {q : Nat} (hq : q < 2 ^ 32) (hne : fs.blockAt n q ≠ 0) (buf : Bytes) :
    ∃ d, writeChunk n (q * fs.blockSize) buf fs.blockSize fs = .ok (fs.blockSize, 0) { fs with disk := d } := by
  have hpos := blockSize_pos fs
  have hlt := (hs.lt (hs.blockAt_data hne)).1
  rw [writeChunk, get_bind, Nat.mul_mod_left, if_pos ⟨rfl, Nat.le_refl _⟩, Nat.mul_div_cancel _ hpos, writeBulk, get_bind, Nat.mod_eq_of_lt hq,
    bind_ok (allocateBlockForOffset_eq hs hr hmaps hne false)]
  dsimp only
  rw [Nat.div_self hpos, show min 1 MAX_BULK_BLOCKS - 1 = 0 from rfl, writeRegion, pure_bind]
  dsimp only
  rw [writeFsBlocks, bind_assoc, get_bind, if_neg (by simp [hro]), if_pos (by omega), Nat.zero_add, Nat.one_mul]
  exact ⟨_, rfl⟩

/-- One full block that is there is written. -/
theorem writeAtLocked_runs (hs : fs.Sound P) (hr : fs.inodeCache n = some r) (hkind : r.HoldsData)
    (hro : fs.readOnly = false) {q : Nat} (hq : q < 2 ^ 32) (hne : fs.blockAt n q ≠ 0)
    (hsize : q * fs.blockSize + fs.blockSize ≤ fs.fileSize n) (buf : Bytes) :
    ∃ fs', writeAtLocked n (q * fs.blockSize) buf fs.blockSize fs = .ok fs.blockSize fs' := by
  have hpos := blockSize_pos fs
  have hbs : fs.blockSize ≤ 2 ^ 16 := hs.accepted.blockSize_le
  have hend : q * fs.blockSize + fs.blockSize < 2 ^ 64 := by
    have : (q + 1) * fs.blockSize ≤ 2 ^ 32 * 2 ^ 16 := Nat.mul_le_mul hq hbs
    rw [Nat.succ_mul] at this
    omega
  obtain ⟨d, hchunk⟩ := writeChunk_one hs hr (hkind.mapsBlocks _) hro hq hne (dropBytes buf 0)
  obtain ⟨f, hf⟩ := Nat.exists_eq_succ_of_ne_zero (Nat.ne_of_gt hpos)
  have hloop : writeLoop n (q * fs.blockSize) buf fs.blockSize fs.blockSize 0 0 fs = .ok 0 { fs with disk := d } := by
    nth_rewrite 3 [hf]
    rw [writeLoop, if_neg (by omega)]
    dsimp only
    rw [Nat.add_zero, Nat.sub_zero, Nat.mod_eq_of_lt (by omega), bind_ok hchunk]
    cases f with
    | zero => rfl
    | succ f =>
      dsimp only
      rw [writeLoop, if_pos (by omega)]
      rfl
  obtain ⟨b, off, hplace, htable, hoff⟩ := tablePlace_spec hs.toPlaced (hs.cached n r hr)
  have hmin := hs.accepted.inodeSize.1
  have hr₁ : ({ fs with disk := d } : Ext2Fs).inodeCache n = some r := hr
  have hsize₁ : ({ fs with disk := d } : Ext2Fs).fileSize n = fs.fileSize n := by
    rw [fileSize_of_cached hr₁, fileSize_of_cached hr]
  rw [writeAtLocked, if_neg (by omega)]
  dsimp only
  rw [bind_ok hloop, bind_ok (size_eq hr₁), hsize₁, if_neg (by rw [Nat.mod_eq_of_lt hend]; omega)]
  have hback : ∀ r', ∃ fs', writeInodeToDisk n (({ fs with disk := d } : Ext2Fs).setInode n (some r')) = .ok ⟨⟩ fs' :=
    fun r' => ⟨_, writeInodeToDisk_at hplace (hs.tables b htable).1 (by
      show off + 128 ≤ fs.blockSize
      omega) hro (Function.update_self ..)⟩
  obtain ⟨fs', hback⟩ := hback (if 0 % 2 ^ 32 > 0 then _ else _)
  exact ⟨fs', (bind_ok (modifyRaw_eq hr₁ _)).trans (bind_ok hback)⟩

/-- What a directory holds after a call that has changed it. -/
structure DirHolds (P : Nat → Prop) (n : Nat) (data : Bytes) (len : Nat) (fs fs' : Ext2Fs) : Prop where
  sound : fs'.Sound P
  step : Step n fs fs'
  bytes : ∀ j < len, fs'.content n j = data j
  cached : ∃ r', fs'.inodeCache n = some r' ∧ r'.fmt = EXT2_S_IFDIR ∧ r'.size32 = len

/-- **A block of the buffer** is written back. -/
theorem writeDirBlock_ok (hs : fs.Sound P) (hr : fs.inodeCache n = some r) (hdir : r.fmt = EXT2_S_IFDIR) {data : Bytes}
    {o : Nat} (hdata : ∀ j < r.size32, j / fs.blockSize ≠ o / fs.blockSize → data j = fs.content n j) {u : PUnit}
    (hrun : writeDirBlock n data r.size32 o fs = .ok u fs') : DirHolds P n data r.size32 fs fs' := by
  have hpos := blockSize_pos fs
  have hlt : r.size32 < 2 ^ 32 := leNat_lt
  have hsize := fileSize_of_dir hr hdir
  rw [writeDirBlock, get_bind] at hrun
  obtain ⟨hfit, hrun⟩ := ite_panic_ok hrun
  obtain ⟨count, fs₁, hwrite, hrun⟩ := bind_eq_ok hrun
  obtain ⟨⟨k, fs₂, hwrote, hkept⟩, -, hsize', r', hr', hfmt⟩ := writeAtLocked_ok hs hr (.inr hdir) hpos
    (Nat.le_trans (Nat.le_trans (Nat.le_of_not_lt hfit) (Nat.le_of_lt hlt)) (Nat.le_mul_of_pos_right _ hpos)) hwrite
  rw [(pure_eq_ok hrun).2]
  refine ⟨hkept.sound, hwrote.extended.toStep.trans hkept.step, fun j hj => ?_, r', hr', hfmt.trans hdir, ?_⟩
  · rw [hkept.content hwrote.sound, hwrote.content]
    have hlo := Nat.le_div_iff_mul_le (x := o / fs.blockSize) (y := j) hpos
    have hhi := Nat.div_lt_iff_lt_mul (x := j) (y := o / fs.blockSize + 1) hpos
    rw [Nat.succ_mul] at hhi
    by_cases hin : j / fs.blockSize = o / fs.blockSize
    · rw [blit_of_inside (by omega) (by omega), dropBytes, Nat.add_sub_of_le (by omega)]
    · rw [blit_of_outside (by omega), hdata j hj hin]
  · rw [← fileSize_of_dir hr' (hfmt.trans hdir), hsize', if_neg (by omega), hsize]

/-- The block around an offset of a directory. -/
theorem block_le {bs len o : Nat} (hwhole : bs ∣ len) (ho : o < len) : o / bs * bs + bs ≤ len := by
  obtain ⟨k, rfl⟩ := hwhole
  have hpos : 0 < bs := Nat.pos_of_ne_zero fun h0 => by simp [h0] at ho
  have hq : o / bs < k := (Nat.div_lt_iff_lt_mul hpos).2 (by rw [Nat.mul_comm]; exact ho)
  have hle := Nat.mul_le_mul_right bs hq
  rw [Nat.succ_mul, Nat.mul_comm k] at hle
  exact hle

theorem writeDirBlock_runs (hs : fs.Sound P) (hr : fs.inodeCache n = some r) (hdir : r.fmt = EXT2_S_IFDIR)
    (hro : fs.readOnly = false) (data : Bytes) {o : Nat} (ho : o < r.size32) (hwhole : fs.blockSize ∣ r.size32)
    (hmap : fs.blockAt n (o / fs.blockSize) ≠ 0) : ∃ fs', writeDirBlock n data r.size32 o fs = .ok ⟨⟩ fs' := by
  have hpos := blockSize_pos fs
  have hlt : r.size32 < 2 ^ 32 := leNat_lt
  have hfit := block_le hwhole ho
  obtain ⟨fs', hwrite⟩ := writeAtLocked_runs hs hr (.inr hdir) hro
    (Nat.lt_of_le_of_lt (Nat.div_le_self ..) (Nat.lt_trans ho hlt)) hmap (by rwa [fileSize_of_dir hr hdir])
    (dropBytes data (o / fs.blockSize * fs.blockSize))
  refine ⟨fs', ?_⟩
  rw [writeDirBlock, get_bind, if_neg (Nat.not_lt.2 hfit), bind_ok hwrite]
  rfl

end Parts

/-! ## Removing an entry -/

section Remove

variable {fs fs' : Ext2Fs} {P : Nat → Prop} {n : Nat} {r : RawInode} {Q : Nat → Nat → Nat → Prop} {l : List Nat}

/-- A hole holds no record. -/
theorem WellFormed.blockAt_ne {len j : Nat} (h : WellFormed Q fs.blockSize len (fs.content n) l) (hj : j < len) :
    fs.blockAt n (j / fs.blockSize) ≠ 0 := by
  intro h0
  obtain ⟨o, -, hgood, hblock⟩ := h.exists_mem hj
  have hheader : 8 ≤ recLenAt (fs.content n) o := hgood.header
  have hzero : recLenAt (fs.content n) o = 0 := by
    refine (leNat_congr fun x h₁ h₂ => ?_).trans leNat_zero
    rw [Ext2Fs.content, hblock x (by omega) (by omega), blockData_of_zero h0]
    rfl
  omega

/-- A directory is read as a whole. -/
theorem WellFormed.dirData (h : WellFormed Q fs.blockSize (fs.fileSize n) (fs.content n) l) (hs : fs.Sound P)
    (hr : fs.inodeCache n = some r) (hdir : r.fmt = EXT2_S_IFDIR) :
    ∃ data, Ext2.dirData n fs = .ok (data, fs.fileSize n) fs ∧ ∀ j < fs.fileSize n, data j = fs.content n j := by
  have hsize := fileSize_of_dir hr hdir
  obtain ⟨data, hread⟩ := dirData_runs hs hr hdir fun j hj => h.blockAt_ne (hsize ▸ hj)
  obtain ⟨-, -, hdata⟩ := dirData_ok hs hr hdir hread
  rw [← hsize] at hread hdata
  exact ⟨data, hread, hdata⟩

theorem removeDirEntry_eq (name : String) {fs₁ : Ext2Fs} {data : Bytes} {size : Nat}
    (hdemote : demoteFromHtree n fs = .ok ⟨⟩ fs₁) (hread : dirData n fs₁ = .ok (data, size) fs₁)
    (hbs : fs₁.blockSize = fs.blockSize) :
    removeDirEntry n name fs = (match removeScan data size (asBytes name) size 0 with
      | .error e => throw e
      | .ok (offset, recLen) =>
        writeDirBlock n (putLe (putLe data offset 4 0) (offset + 4) 2
          (coalesced (putLe data offset 4 0) size fs.blockSize offset recLen)) size offset : FsM Unit) fs₁ := by
  rw [removeDirEntry, bind_ok hdemote, get_bind, bind_ok hread]
  exact hbs ▸ rfl

/-- **`remove_dir_entry`** on a writable filesystem: an entry with the name is removed, and otherwise nothing happens but
that the index flag of the directory is gone. -/
theorem removeDirEntry_removes (h : fs.Sound P) (hr : fs.inodeCache n = some r) (hdir : r.fmt = EXT2_S_IFDIR)
    (hro : fs.readOnly = false) (hbs : fs.blockSize < 2 ^ 16)
    (hQ : ∀ m k i i' n n', Q m i n → Q m 0 n ∧ (Q k i' n' → Q (m + k) 0 n))
    (hwf : WellFormed Q fs.blockSize r.size32 (fs.content n) l) (name : String) :
    ((∀ e ∈ entries (fs.content n) l, e.name ≠ asBytes name) → ∃ fs',
      removeDirEntry n name fs = .error (.err .notFound) fs' ∧ Demoted n r fs fs') ∧
    ((∃ e ∈ entries (fs.content n) l, e.name = asBytes name) → ∃ fs' data l',
      removeDirEntry n name fs = .ok ⟨⟩ fs' ∧ DirHolds P n data r.size32 fs fs' ∧
      WellFormed Q fs.blockSize r.size32 data l' ∧
      entries data l' = (entries (fs.content n) l).eraseP fun e => e.name = asBytes name) := by
  have hkind : r.HoldsData := .inr hdir
  obtain ⟨fs₁, hdemote⟩ := demoteFromHtree_runs h hr hkind hro
  have hdem := demoteFromHtree_ok h hr hkind hdemote
  obtain ⟨hkept, r₁, hr₁, hsame, hsize⟩ := hdem.kept h hr hkind
  have hdir₁ : r₁.fmt = EXT2_S_IFDIR := hsame.fmt.trans hdir
  have hbs₁ := hkept.step.layout.blockSize
  have hcontent := hkept.content h n
  have hmap : ∀ j < r₁.size32, fs₁.blockAt n (j / fs₁.blockSize) ≠ 0 := fun j hj => by
    rw [hkept.map.blockAt, hbs₁]
    exact hwf.blockAt_ne (hsize ▸ hj)
  obtain ⟨data, hread⟩ := dirData_runs hkept.sound hr₁ hdir₁ hmap
  obtain ⟨-, -, hdata⟩ := dirData_ok hkept.sound hr₁ hdir₁ hread
  rw [hcontent, hsize] at hdata
  rw [hsize] at hread
  obtain ⟨hwf', hentries⟩ := hwf.congr hdata
  have hscan := removeScan_eq (asBytes name) hwf'.tiles hwf'.good (show r.size32 - 0 ≤ r.size32 from Nat.sub_le ..)
  have hrun := removeDirEntry_eq name hdemote hread hbs₁
  rw [← hentries, exists_named_iff, hrun, hscan]
  cases hfind : l.find? (isNamed data (asBytes name)) with
  | none =>
    refine ⟨fun _ => ⟨fs₁, rfl, hdem⟩, ?_⟩
    rintro ⟨o, ho, hnamed⟩
    exact absurd hnamed (List.find?_eq_none.1 hfind o ho)
  | some o =>
    obtain ⟨hnamed, pre, post, rfl, hpre⟩ := List.find?_eq_some_iff_append.1 hfind
    have ho : o ∈ pre ++ o :: post := List.mem_append_right _ (List.mem_cons_self ..)
    refine ⟨fun hnone => ?_, fun _ => ?_⟩
    · obtain ⟨e, he, hname⟩ := exists_named_iff.2 ⟨o, ho, hnamed⟩
      exact absurd hname (hnone e he)
    · have hgood := hwf'.good o ho
      have hheader : 8 ≤ recLenAt data o := hgood.header
      obtain ⟨hremoved, hleft⟩ := remove_wellFormed hwf' hbs (blockSize_pos fs) hQ
      have hin := (hwf'.tiles.mem ho).2.2
      obtain ⟨fs', hwrite⟩ := writeDirBlock_runs hkept.sound hr₁ hdir₁ (hkept.step.layout.readOnly.trans hro)
        (removedData data r.size32 fs.blockSize o) (show o < r₁.size32 by omega) (by rw [hbs₁, hsize]; exact hwf.whole)
        (hmap o (by omega))
      have hholds := writeDirBlock_ok hkept.sound hr₁ hdir₁ (fun j hj hout => by
        rw [hbs₁] at hout
        rw [removedData_same data _ _ _ (by_contra fun hj' => hout (hgood.block (by omega) (by omega))), hcontent]
        exact hdata j (hsize ▸ hj)) hwrite
      rw [hsize] at hwrite hholds
      refine ⟨fs', _, _, hwrite, ⟨hholds.sound, hkept.step.trans hholds.step, hholds.bytes, hholds.cached⟩, hremoved, ?_⟩
      rw [hleft, entries_eraseP (fun x hx => by simpa using hpre x hx) hnamed]

end Remove

/-! ## Adding an entry -/

section Add

variable {fs fs' : Ext2Fs} {P : Nat → Prop} {n : Nat} {r : RawInode} {l : List Nat}

/-- No crash. -/
def Reports (e : Fault) (_ : Ext2Fs) : Prop := e ≠ .panic

theorem writeInodeToDisk_readOnly (hp : fs.Placed) (hn : fs.IsSlot n) (hr : fs.inodeCache n = some r)
    (hro : fs.readOnly = true) : writeInodeToDisk n fs = .error (.err .readOnly) fs := by
  obtain ⟨b, off, hplace, htable, hoff⟩ := tablePlace_spec hp hn
  have hmin := hp.accepted.inodeSize.1
  rw [writeInodeToDisk, bind_ok (raw_eq hr), get_bind, bind_ok (locateInode_eq hplace)]
  show (readFsBlock b >>= _) fs = _
  rw [bind_ok (readFsBlock_eq (hp.tables b htable).1), if_neg (by omega), writeFsBlock, get_bind, if_pos hro]
  rfl

theorem demoteFromHtree_ends (hs : fs.Sound P) (hc : fs.Consistent) (hr : fs.inodeCache n = some r) (hkind : r.HoldsData) :
    Ends (fun _ fs' => Demoted n r fs fs' ∧ fs'.Consistent) Reports (demoteFromHtree n) fs := by
  have hcons : Ends (fun _ fs' => fs'.Consistent) Reports (demoteFromHtree n) fs := by
    refine .step (raw_eq hr) ?_
    by_cases hflag : r.flags &&& EXT2_INDEX_FL ≠ 0
    · rw [if_pos hflag]
      refine .step (modifyRaw_eq hr _) ?_
      have hkept := hs.keep hr (sameRefs_indexCleared r) hkind.ne_link
      have hcached : (fs.setInode n (some (indexCleared r))).inodeCache n = some (indexCleared r) := Function.update_self ..
      have hn := hkept.sound.cached n _ hcached
      rcases Bool.eq_false_or_eq_true fs.readOnly with hro | hro
      · exact .error (writeInodeToDisk_readOnly hkept.sound.toPlaced hn hcached hro) nofun
      · obtain ⟨fs', hwrite, hspent⟩ := writeInodeToDisk_ends hkept.sound.toPlaced hn (spent_setInode hc n _).consistent
          hcached hro
        exact .ok hwrite hspent.consistent
    · rw [if_neg hflag]
      exact .ok rfl hc
  exact hcons.imp (fun u fs' hrun hc' => ⟨demoteFromHtree_ok hs hr hkind hrun, hc'⟩) fun _ _ he => he

/-- Writing back a block of the buffer, whether it succeeds or not. -/
theorem writeDirBlock_ends (hs : fs.Sound P) (hc : fs.Consistent) (hr : fs.inodeCache n = some r) (hdir : r.fmt = EXT2_S_IFDIR)
    {data : Bytes} {o : Nat} (ho : o < r.size32) (hwhole : fs.blockSize ∣ r.size32)
    (hdata : ∀ j < r.size32, j / fs.blockSize ≠ o / fs.blockSize → data j = fs.content n j) :
    Ends (fun _ fs' => DirHolds P n data r.size32 fs fs' ∧ fs'.Consistent ∧ fs.readOnly = false) Reports
      (writeDirBlock n data r.size32 o) fs := by
  have hfit := block_le hwhole ho
  have hcons : Ends (fun _ fs' => fs'.Consistent ∧ fs.readOnly = false) Reports (writeDirBlock n data r.size32 o) fs := by
    refine .congr (get_bind ..) ?_
    rw [if_neg (Nat.not_lt.2 hfit)]
    refine ((writeAtLocked_ends hs hc hr (.inr hdir) _ _ _).imp (fun _ _ _ hw => hw) fun _ _ he => he.1.1).bind ?_
    intro count fs₁ hw
    exact .ok rfl ⟨hw.1, hw.2 (blockSize_pos fs)⟩
  exact hcons.imp (fun u fs' hrun hw => ⟨writeDirBlock_ok hs hr hdir hdata hrun, hw⟩) fun _ _ he => he

/-- A directory in memory whose records cover its blocks. -/
structure DirState (P : Nat → Prop) (n : Nat) (fs : Ext2Fs) (l : List Nat) : Prop where
  sound : fs.Sound P
  consistent : fs.Consistent
  dir : ∃ r, fs.inodeCache n = some r ∧ r.fmt = EXT2_S_IFDIR
  image : WellFormed Aligned fs.blockSize (fs.fileSize n) (fs.content n) l

/-- When a name can be added: a record has 64 KiB at most, the last record is as long as its own name asks for, and a directory
that grows stays below 4 GiB. -/
def Insertable (fs : Ext2Fs) (n : Nat) (name : String) : Prop :=
  fs.blockSize < 2 ^ 16 ∧
    match addScan (fs.content n) (fs.fileSize n) (entrySize (asBytes name).length) (fs.fileSize n) 0 0 0 with
    | .slot _ _ => True
    | .last start actual => actual ≤ recLenAt (fs.content n) start ∧
        (actual = 0 ∨ recLenAt (fs.content n) start < actual + entrySize (asBytes name).length →
          fs.fileSize n + fs.blockSize < 2 ^ 32)

/-- The buffer was written back. -/
theorem DirHolds.state {data : Bytes} {len : Nat} {l' : List Nat} (h : DirHolds P n data len fs fs') (hc : fs'.Consistent)
    (hwf : WellFormed Aligned fs.blockSize len data l') :
    DirState P n fs' l' ∧ entries (fs'.content n) l' = entries data l' := by
  obtain ⟨r', hr', hdir, hsize⟩ := h.cached
  obtain ⟨himage, hentries⟩ := hwf.congr h.bytes
  refine ⟨⟨h.sound, hc, ⟨r', hr', hdir⟩, ?_⟩, hentries⟩
  rw [h.step.layout.blockSize, fileSize_of_dir hr' hdir, hsize]
  exact himage

theorem four_dvd_blockSize (fs : Ext2Fs) : 4 ∣ fs.blockSize := by
  show 4 ∣ 1024 <<< fs.superBlock.logBlockSize
  rw [Nat.shiftLeft_eq]
  exact Nat.dvd_mul_right_of_dvd (by decide) _

/-- A block is appended, whether it succeeds or not. -/
theorem appendDirBlock_ends (h : DirState P n fs l) (hbs : fs.blockSize < 2 ^ 16) (hgrow : fs.fileSize n + fs.blockSize < 2 ^ 32)
    {name : List Byte} {child : Nat} {fileType : Byte} (hname : name.length < 2 ^ 8) (hchild : 0 < child)
    (hchild' : child < 2 ^ 32) :
    Ends (fun _ fs' => ∃ l', DirState P n fs' l' ∧ Step n fs fs' ∧
        Inserted ⟨child, fileType, name⟩ (entries (fs.content n) l) (entries (fs'.content n) l')) Reports
      (appendDirBlock n name child fileType (fs.fileSize n)) fs := by
  obtain ⟨r, hr, hdir⟩ := h.dir
  have hpos := blockSize_pos fs
  have hdm : fs.fileSize n / fs.blockSize * fs.blockSize = fs.fileSize n := Nat.div_mul_cancel h.image.whole
  refine .congr (get_bind ..) ?_
  rw [hdm]
  have hwrite := writeAtLocked_ends h.sound h.consistent hr (.inr hdir) (fs.fileSize n) fs.blockSize
    (appendedBlock fs.blockSize child fileType name)
  refine (hwrite.imp (fun count fs' hrun hw => ?_) fun _ _ he => he.1.1).bind
    (Q := fun _ fs' => ∃ l', DirState P n fs' l' ∧ Step n fs fs' ∧
      Inserted ⟨child, fileType, name⟩ (entries (fs.content n) l) (entries (fs'.content n) l')) fun _ _ hadds => .ok rfl hadds
  obtain ⟨⟨k, fs₁, hwrote, hkept⟩, -, hsize, r', hr', hfmt⟩ := writeAtLocked_ok h.sound hr (.inr hdir) hpos (by
    have := Nat.le_mul_of_pos_right (2 ^ 32) hpos
    omega) hrun
  have hstep := hwrote.extended.toStep.trans hkept.step
  have hcontent : fs'.content n = blit (fs.content n) (fs.fileSize n) fs.blockSize
      (appendedBlock fs.blockSize child fileType name) := (hkept.content hwrote.sound n).trans hwrote.content
  have hstored : storedSize fs.superBlock.hasLargeFile r (fs.fileSize n + fs.blockSize) = fs.fileSize n + fs.blockSize := by
    unfold storedSize
    split <;> omega
  rw [if_pos (by omega), hstored] at hsize
  have h1024 : 1024 ≤ fs.blockSize := fs.superBlock.blockSize_ge
  have hold : ∀ j < fs.fileSize n, fs'.content n j = fs.content n j := fun j hj => by
    rw [hcontent, blit_of_outside (.inl hj)]
  have hnew : ∀ i < fs.blockSize, fs'.content n (fs.fileSize n + i) = appendedBlock fs.blockSize child fileType name i :=
    fun i hi => by rw [hcontent, blit_of_inside (by omega) (by omega), Nat.add_sub_cancel_left]
  obtain ⟨hwf, hins⟩ := append_wellFormed h.image hbs h1024 (four_dvd_blockSize fs) hchild hchild' hname hold hnew
  refine ⟨_, ⟨hkept.sound, hw.1, ⟨r', hr', hfmt.trans hdir⟩, ?_⟩, hstep, hins⟩
  rw [hsize, hstep.layout.blockSize]
  exact hwf

/-- The record that is added: its type is stored if the filesystem has the feature. -/
def newEntry (fs : Ext2Fs) (name : String) (child : Nat) (fileType : Byte) : LiveEntry :=
  ⟨child, if fs.superBlock.hasFiletype then fileType else 0, asBytes name⟩

/-- What adding a record leaves when it succeeds. -/
def DirAdds (P : Nat → Prop) (n : Nat) (entry : LiveEntry) (before : List LiveEntry) (fs fs' : Ext2Fs) : Prop :=
  ∃ l', DirState P n fs' l' ∧ Step n fs fs' ∧ Inserted entry before (entries (fs'.content n) l')

/-- A block of the directory with the new record is written back. -/
theorem addRecord_ends (h : DirState P n fs l) {data data' : Bytes} (hdata : ∀ j < fs.fileSize n, data j = fs.content n j)
    {o : Nat} (ho : o < fs.fileSize n) (hout : ∀ j, j / fs.blockSize ≠ o / fs.blockSize → data' j = data j)
    {l' : List Nat} (hwf : WellFormed Aligned fs.blockSize (fs.fileSize n) data' l') {entry : LiveEntry}
    (hins : Inserted entry (entries data l) (entries data' l')) :
    Ends (fun _ fs' => DirAdds P n entry (entries (fs.content n) l) fs fs') Reports
      (writeDirBlock n data' (fs.fileSize n) o) fs := by
  obtain ⟨r, hr, hdir⟩ := h.dir
  have hsize := fileSize_of_dir hr hdir
  have hwrite := writeDirBlock_ends h.sound h.consistent hr hdir (hsize ▸ ho) (hsize ▸ h.image.whole)
    (fun j hj hne => (hout j hne).trans (hdata j (hsize ▸ hj)))
  rw [← hsize] at hwrite
  refine hwrite.imp (fun u fs' _ hw => ?_) fun _ _ he => he
  obtain ⟨hstate, hentries⟩ := hw.1.state hw.2.1 hwf
  refine ⟨l', hstate, hw.1.step, ?_⟩
  rw [hentries, ← (h.image.congr hdata).2]
  exact hins

/-- Where the record goes, once the directory was read. -/
theorem insertRecord_ends (h : DirState P n fs l) {data : Bytes} (hdata : ∀ j < fs.fileSize n, data j = fs.content n j)
    {name : String} (hname : (asBytes name).length < 2 ^ 8) {child : Nat} (hchild : 0 < child) (hchild' : child < 2 ^ 32)
    (fileType : Byte) (hok : Insertable fs n name) :
    Ends (fun _ fs' => DirAdds P n ⟨child, fileType, asBytes name⟩ (entries (fs.content n) l) fs fs') Reports
      (match addScan data (fs.fileSize n) (entrySize (asBytes name).length) (fs.fileSize n) 0 0 0 with
      | .slot offset recLen =>
        writeDirBlock n (reusedData data offset recLen child fileType (asBytes name)) (fs.fileSize n) offset
      | .last start actual =>
        let extra := (leNat data (start + 4) 2 + 2 ^ 64 - actual) % 2 ^ 64
        if actual > 0 ∧ extra ≥ entrySize (asBytes name).length then
          let data := putLe data (start + 4) 2 actual
          let newOff := start + actual
          if newOff + DIR_ENTRY_HEADER_SIZE + (asBytes name).length > fs.fileSize n then panic
          else writeDirBlock n (writeDirEntryInBuf data newOff child (asBytes name).length fileType (asBytes name)
            (extra % 2 ^ 16)) (fs.fileSize n) start
        else appendDirBlock n (asBytes name) child fileType (fs.fileSize n) : FsM Unit) fs := by
  have hpos := blockSize_pos fs
  obtain ⟨hwf, hentries⟩ := h.image.congr hdata
  obtain ⟨hbs, hok⟩ := hok
  rw [← addScan_congr _ _ _ _ _ hdata] at hok
  have hscan := addScan_eq (entrySize (asBytes name).length) hwf.tiles hwf.good
    (show fs.fileSize n - 0 ≤ fs.fileSize n from Nat.sub_le ..) 0 0
  rw [hscan] at hok ⊢
  cases hfind : l.find? (hasRoom data (entrySize (asBytes name).length)) with
  | some o =>
    -- a free record is long enough
    obtain ⟨hroom, pre, post, rfl, -⟩ := List.find?_eq_some_iff_append.1 hfind
    have ho : o ∈ pre ++ o :: post := List.mem_append_right _ (List.mem_cons_self ..)
    obtain ⟨hfree, hfits⟩ := of_decide_eq_true hroom
    have hin := hwf.tiles.mem ho
    obtain ⟨l', hwf', hins⟩ := reuse_wellFormed fileType hwf hbs hpos hfree hfits hchild hchild' hname
    exact addRecord_ends h hdata (by omega) (fun j hj => reusedData_same hfits (by
      by_contra hc
      exact hj ((hwf.good o ho).block (by omega) (by omega)))) hwf' hins
  | none =>
    rw [hfind] at hok
    cases hlast : l.getLast? with
    | none =>
      -- the directory is empty
      rw [hlast] at hok
      exact appendDirBlock_ends h hbs (hok.2 (.inl rfl)) hname hchild hchild'
    | some o =>
      rw [hlast] at hok
      obtain ⟨pre, rfl⟩ := List.getLast?_eq_some_iff.1 hlast
      have ho : o ∈ pre ++ [o] := List.mem_append_right _ (List.mem_singleton_self o)
      have hin := hwf.tiles.mem ho
      have hgood := hwf.good o ho
      have hheader : 8 ≤ recLenAt data o := hgood.header
      have hmbs := hgood.le_blockSize hpos
      obtain ⟨hactual, hgrow⟩ := hok
      have hrec : recLenAt (fs.content n) o = recLenAt data o := leNat_congr fun j _ hj => (hdata j (by omega)).symm
      rw [hrec] at hactual hgrow
      obtain ⟨-, hfits, hmin, -⟩ := entrySize_spec (asBytes name).length
      obtain ⟨-, -, hmin', -⟩ := entrySize_spec (nameLenAt data o)
      have hextra : (leNat data (o + 4) 2 + 2 ^ 64 - entrySize (nameLenAt data o)) % 2 ^ 64 =
          recLenAt data o - entrySize (nameLenAt data o) := by
        show (recLenAt data o + 2 ^ 64 - entrySize (nameLenAt data o)) % 2 ^ 64 = _
        omega
      dsimp only
      rw [hextra]
      by_cases hroom : entrySize (nameLenAt data o) > 0 ∧
          recLenAt data o - entrySize (nameLenAt data o) ≥ entrySize (asBytes name).length
      · -- the last record has space
        rw [if_pos hroom, if_neg (by simp only [DIR_ENTRY_HEADER_SIZE]; omega), Nat.mod_eq_of_lt (by omega)]
        obtain ⟨l', hwf', hins⟩ := share_wellFormed fileType hwf hbs hpos (by omega) hchild hchild' hname
        exact addRecord_ends h hdata (by omega) (fun j hj => sharedData_same (by omega) (by
          by_contra hc
          exact hj (hgood.block (by omega) (by omega)))) hwf' hins
      · -- it has not
        rw [if_neg hroom]
        exact appendDirBlock_ends h hbs (hgrow (by omega)) hname hchild hchild'

end Add

end Koros.Ext2
