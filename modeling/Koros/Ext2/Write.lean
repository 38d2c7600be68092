import Koros.Ext2.Content

/-!
# What `write_at` writes

The loop of `write_at_locked` alternates between parts of one block, which are read, changed and written, and regions of
full blocks. In a region blocks are allocated one by one and written in runs of contiguous ones, so between two requests
there is a run of blocks that hang in the tree and do not hold the data yet (`Region`).

- `writeRegion_ok`, `writeBulk_ok`, `writePartial_ok`, `writeLoop_ok`: the content after the rounds of the loop;
- `writeAtLocked_splices`: the buffer is spliced into the content of the file, and nothing else changes.
-/
set_option autoImplicit false

namespace Koros.Ext2

open Koros.Lib Xattr

section Region

variable {fs fs₁ fs₂ fs' : Ext2Fs} {P : Nat → Prop} {n k k' lb runStart runLen done limit b : Nat} {buf : Bytes}
  {r : RawInode}

/-- In the region from `lb` on, `done` blocks hold the data, and the `runLen` blocks after them are the contiguous ones
from `runStart` on. Nothing is known of the bytes in them and in the blocks up to `limit`. -/
structure Region (P : Nat → Prop) (n k lb : Nat) (buf : Bytes) (runStart runLen done limit : Nat) (fs fs' : Ext2Fs) :
    Prop where
  sound : fs'.Sound P
  extended : Extended n k fs fs'
  ne_zero : runStart ≠ 0
  le : lb + done + runLen ≤ limit
  run : ∀ i < runLen, fs'.blockAt n (lb + done + i) = runStart + i
  written : ∀ i < done, fs'.blockData n (lb + i) = dropBytes buf (i * fs.blockSize)
  rest : ∀ q, q < lb ∨ limit ≤ q → fs'.blockData n q = fs.blockData n q

/-- The next block of the region is there. -/
theorem Region.alloc (h : Region P n k lb buf runStart runLen done limit fs fs₁)
    (hb : Backed P n limit k' b false fs₁ fs₂) :
    Region P n (k + k') lb buf runStart runLen done (limit + 1) fs fs₂ where
  sound := hb.sound
  extended := h.extended.trans hb.grown.toExtended
  ne_zero := h.ne_zero
  le := Nat.le_succ_of_le h.le
  run := fun i hi => by
    have hle := h.le
    rw [hb.blockAt (by omega)]
    exact h.run i hi
  written := fun i hi => by
    have hle := h.le
    rw [hb.blockData (.inl (by omega))]
    exact h.written i hi
  rest := fun q hq => by
    have hle := h.le
    rw [hb.blockData (.inl (by omega))]
    exact h.rest q (by omega)

/-- It continues the run. -/
theorem Region.grow (h : Region P n k lb buf runStart runLen done (lb + done + runLen + 1) fs fs')
    (hb : fs'.blockAt n (lb + done + runLen) = runStart + runLen) :
    Region P n k lb buf runStart (runLen + 1) done (lb + done + runLen + 1) fs fs' where
  sound := h.sound
  extended := h.extended
  ne_zero := h.ne_zero
  le := Nat.le_refl _
  run := fun i hi => by
    rcases Nat.lt_or_eq_of_le (Nat.le_of_lt_succ hi) with hi | rfl
    · exact h.run i hi
    · exact hb
  written := h.written
  rest := h.rest

/-- The run is written. -/
theorem Region.flush (h : Region P n k lb buf runStart runLen done limit fs fs₁) {u : PUnit}
    (hrun : writeFsBlocks runStart runLen (dropBytes buf (done * fs.blockSize)) fs₁ = .ok u fs') :
    fs'.Sound P ∧ Extended n k fs fs' ∧ (∀ q, fs'.blockAt n q = fs₁.blockAt n q) ∧
      (∀ i < done + runLen, fs'.blockData n (lb + i) = dropBytes buf (i * fs.blockSize)) ∧
      ∀ q, q < lb ∨ limit ≤ q → fs'.blockData n q = fs.blockData n q := by
  obtain ⟨-, -, rfl⟩ := writeFsBlocks_ok hrun
  have hle := h.le
  have hne := h.ne_zero
  obtain ⟨hsound, hext, hat, hdata⟩ := h.sound.writeBlocks (n := n)
    (Q := fun q => lb + done ≤ q ∧ q < lb + done + runLen)
    (sameLayout_setDisks fs₁ runStart runLen (dropBytes buf (done * fs.blockSize))) rfl
    (fun c hc => if_neg fun hin => by
      refine hc (lb + done + (c - runStart)) (by omega) ?_
      rw [h.run _ (by omega)]
      omega)
    (fun q hq => by
      have := h.run (q - (lb + done)) (by omega)
      rw [Nat.add_sub_of_le hq.1] at this
      omega)
  refine ⟨hsound, h.extended.trans hext, hat, fun i hi => ?_, fun q hq => ?_⟩
  · by_cases hid : i < done
    · rw [hdata _ (by omega)]
      exact h.written i hid
    · have hnode := h.run (i - done) (by omega)
      rw [show lb + done + (i - done) = lb + i by omega] at hnode
      rw [blockData_of_ne (by rw [hat, hnode]; omega), hat, hnode]
      show (if _ then _ else _) = _
      rw [if_pos (by omega), Nat.add_sub_cancel_left, h.extended.layout.blockSize]
      funext j
      simp only [dropBytes, Nat.sub_mul]
      congr 1
      have := Nat.mul_le_mul_right fs.blockSize (Nat.le_of_not_lt hid)
      omega
  · rw [hdata q (by omega)]
    exact h.rest q hq

/-- It starts a run of its own. -/
theorem Region.next (h : Region P n k lb buf runStart runLen done (lb + done + runLen + 1) fs fs₁)
    (hb : fs₁.blockAt n (lb + done + runLen) = b) (hne : b ≠ 0) {u : PUnit}
    (hrun : writeFsBlocks runStart runLen (dropBytes buf (done * fs.blockSize)) fs₁ = .ok u fs') :
    Region P n k lb buf b 1 (done + runLen) (lb + (done + runLen) + 1) fs fs' := by
  obtain ⟨hsound, hext, hat, hwritten, hrest⟩ := h.flush hrun
  refine ⟨hsound, hext, hne, Nat.le_refl _, fun i hi => ?_, hwritten, fun q hq => hrest q (by omega)⟩
  obtain rfl : i = 0 := by omega
  rw [hat, Nat.add_zero, Nat.add_zero, ← Nat.add_assoc]
  exact hb

/-- The blocks of the run are blocks of the filesystem. -/
theorem Region.end_lt (h : Region P n k lb buf runStart runLen done limit fs fs') (hpos : 0 < runLen) :
    runStart + runLen < 2 ^ 32 := by
  have hne := h.ne_zero
  have hlast := h.run (runLen - 1) (by omega)
  have hdata := h.sound.blockAt_data (n := n) (q := lb + done + (runLen - 1)) (by omega)
  have hlt := hdata.1.2
  have := h.sound.geometry.blocks
  omega

/-- **The inner loop**: every round has one more block of the region. -/
theorem writeRegion_ok (hr : fs.inodeCache n = some r) (hmaps : r.mapsBlocks fs.sectors = true) (count : Nat)
    {w w' : WriteRun} (hpos : 0 < w.runLen) (hlt : lb + w.doneInRegion + w.runLen + count ≤ 2 ^ 32)
    (h : Region P n k lb buf w.runStart w.runLen w.doneInRegion (lb + w.doneInRegion + w.runLen) fs fs₁)
    (hrun : writeRegion n lb buf count w fs₁ = .ok w' fs') :
    ∃ k', Region P n (k + k') lb buf w'.runStart w'.runLen w'.doneInRegion (lb + w'.doneInRegion + w'.runLen) fs fs' ∧
      w'.doneInRegion + w'.runLen = w.doneInRegion + w.runLen + count ∧ w'.newFsBlocks = w.newFsBlocks + k' := by
  induction count generalizing w k fs₁ with
  | zero =>
    obtain ⟨rfl, hfs⟩ := pure_eq_ok hrun
    rw [hfs]
    exact ⟨0, h, rfl, rfl⟩
  | succ count ih =>
    obtain ⟨⟨b, k₁⟩, fs₂, halloc, hrun⟩ := bind_eq_ok hrun
    obtain ⟨r₁, hr₁, -, hmaps₁⟩ := h.extended.cached hr hmaps
    rw [Nat.mod_eq_of_lt (by omega)] at halloc
    have hb := allocateBlockForOffset_ok h.sound hr₁ hmaps₁ halloc
    have h₂ := h.alloc hb
    dsimp only at hrun
    rw [Nat.mod_eq_of_lt (h.end_lt hpos)] at hrun
    by_cases hnext : b = w.runStart + w.runLen
    · rw [if_pos hnext] at hrun
      have h₃ := h₂.grow (by rw [hb.blockAt_self, hnext])
      obtain ⟨k₂, hreg, hcount, hblocks⟩ :=
        ih (w := { w with runLen := w.runLen + 1, newFsBlocks := w.newFsBlocks + k₁ }) (Nat.succ_pos _)
          (by dsimp only; omega) h₃ hrun
      dsimp only at hcount hblocks
      exact ⟨k₁ + k₂, by rwa [← Nat.add_assoc], by omega, by omega⟩
    · rw [if_neg hnext, get_bind] at hrun
      obtain ⟨u, fs₃, hwrite, hrun⟩ := bind_eq_ok hrun
      rw [h₂.extended.layout.blockSize] at hwrite
      have h₃ := h₂.next hb.blockAt_self hb.ne_zero hwrite
      obtain ⟨k₂, hreg, hcount, hblocks⟩ :=
        ih (w := ⟨b, 1, w.doneInRegion + w.runLen, w.newFsBlocks + k₁⟩) Nat.one_pos (by dsimp only; omega) h₃ hrun
      dsimp only at hcount hblocks
      exact ⟨k₁ + k₂, by rwa [← Nat.add_assoc], by omega, by omega⟩

end Region

/-! ## The rounds of the loop -/

section Rounds

variable {fs fs₁ fs' : Ext2Fs} {P : Nat → Prop} {n k k' lb : Nat} {buf : Bytes} {r : RawInode}

/-- A part of the content was replaced by the start of a buffer. -/
structure Wrote (P : Nat → Prop) (n k : Nat) (buf : Bytes) (offset len : Nat) (fs fs' : Ext2Fs) : Prop where
  sound : fs'.Sound P
  extended : Extended n k fs fs'
  content : fs'.content n = blit (fs.content n) offset len buf

/-- Blocks that hold the data are a splice. -/
theorem content_splice {count : Nat} (hbs : fs'.blockSize = fs.blockSize)
    (hin : ∀ i < count, fs'.blockData n (lb + i) = dropBytes buf (i * fs.blockSize))
    (hout : ∀ q, q < lb ∨ lb + count ≤ q → fs'.blockData n q = fs.blockData n q) :
    fs'.content n = blit (fs.content n) (lb * fs.blockSize) (count * fs.blockSize) buf := by
  have hpos := blockSize_pos fs
  funext j
  unfold Ext2Fs.content
  rw [hbs]
  have hdm := Nat.div_add_mod' j fs.blockSize
  by_cases hj : lb ≤ j / fs.blockSize ∧ j / fs.blockSize < lb + count
  · have hlo : lb * fs.blockSize ≤ j := (Nat.le_div_iff_mul_le hpos).1 hj.1
    have hhi : j < lb * fs.blockSize + count * fs.blockSize := by
      rw [← Nat.add_mul]
      exact (Nat.div_lt_iff_lt_mul hpos).1 hj.2
    have hdata := hin (j / fs.blockSize - lb) (by omega)
    rw [Nat.add_sub_of_le hj.1] at hdata
    have hle := Nat.mul_le_mul_right fs.blockSize hj.1
    rw [blit_of_inside hlo hhi, hdata, dropBytes, Nat.sub_mul]
    congr 1
    omega
  · have hout' : j < lb * fs.blockSize ∨ lb * fs.blockSize + count * fs.blockSize ≤ j := by
      rw [← Nat.add_mul, ← Nat.div_lt_iff_lt_mul hpos, ← Nat.le_div_iff_mul_le hpos]
      omega
    rw [blit_of_outside hout', hout _ (by omega)]

theorem writeBulk_ok (h : fs.Sound P) (hr : fs.inodeCache n = some r) (hmaps : r.mapsBlocks fs.sectors = true)
    {remaining c : Nat} (hrem : fs.blockSize ≤ remaining) (hlt : lb * fs.blockSize + remaining ≤ 2 ^ 32 * fs.blockSize)
    (hrun : writeBulk n lb buf remaining fs = .ok (c, k) fs') :
    0 < c ∧ c ≤ remaining ∧ Wrote P n k buf (lb * fs.blockSize) c fs fs' := by
  have hpos := blockSize_pos fs
  rw [writeBulk, get_bind] at hrun
  obtain ⟨⟨b, k₁⟩, fs₁, halloc, hrun⟩ := bind_eq_ok hrun
  have hblocks : (lb + remaining / fs.blockSize) * fs.blockSize ≤ 2 ^ 32 * fs.blockSize := by
    rw [Nat.add_mul]
    exact Nat.le_trans (Nat.add_le_add_left (Nat.div_mul_le_self ..) _) hlt
  have hlimit : lb + remaining / fs.blockSize ≤ 2 ^ 32 := Nat.le_of_mul_le_mul_right hblocks hpos
  have hone : 1 ≤ remaining / fs.blockSize := (Nat.le_div_iff_mul_le hpos).2 (by omega)
  rw [Nat.mod_eq_of_lt (by omega)] at halloc
  have hb := allocateBlockForOffset_ok h hr hmaps halloc
  have hfirst : Region P n k₁ lb buf b 1 0 (lb + 0 + 1) fs fs₁ := by
    refine ⟨hb.sound, hb.grown.toExtended, hb.ne_zero, Nat.le_refl _, fun i hi => ?_, fun i hi => absurd hi (Nat.not_lt_zero i),
      fun q hq => hb.blockData (.inl (by omega))⟩
    obtain rfl : i = 0 := by omega
    exact hb.blockAt_self
  dsimp only at hrun
  obtain ⟨w, fs₂, hregion, hrun⟩ := bind_eq_ok hrun
  have hmax : min (remaining / fs.blockSize) MAX_BULK_BLOCKS ≤ remaining / fs.blockSize := Nat.min_le_left ..
  obtain ⟨k₂, hreg, hcount, hnew⟩ := writeRegion_ok hr hmaps _ (w := ⟨b, 1, 0, k₁⟩) Nat.one_pos
    (by dsimp only; omega) hfirst hregion
  dsimp only at hcount hnew
  obtain ⟨u, fs₃, hwrite, hrun⟩ := bind_eq_ok hrun
  obtain ⟨hck, rfl⟩ := pure_eq_ok hrun
  obtain ⟨rfl, rfl⟩ := Prod.mk.inj hck
  obtain ⟨hsound, hext, -, hin, hout⟩ := hreg.flush hwrite
  have hle : w.doneInRegion + w.runLen ≤ remaining / fs.blockSize := by omega
  refine ⟨Nat.mul_pos (by omega) hpos, ?_, hsound, hnew ▸ hext, ?_⟩
  · exact Nat.le_trans (Nat.mul_le_mul_right _ hle) (Nat.div_mul_le_self ..)
  · exact content_splice hext.layout.blockSize hin fun q hq => hout q (by omega)

/-- A part of one block is read, changed and written. -/
theorem writePartial_ok (h : fs.Sound P) (hr : fs.inodeCache n = some r) (hmaps : r.mapsBlocks fs.sectors = true)
    {off remaining c : Nat} (hoff : off < fs.blockSize) (hrem : 0 < remaining) (hlb : lb < 2 ^ 32)
    (hrun : writePartial n lb off buf remaining fs = .ok (c, k) fs') :
    0 < c ∧ c ≤ remaining ∧ Wrote P n k buf (lb * fs.blockSize + off) c fs fs' := by
  have hpos := blockSize_pos fs
  rw [writePartial, get_bind] at hrun
  obtain ⟨⟨b, k₁⟩, fs₁, halloc, hrun⟩ := bind_eq_ok hrun
  rw [Nat.mod_eq_of_lt hlb] at halloc
  have hb := allocateBlockForOffset_ok h hr hmaps halloc
  dsimp only at hrun
  obtain ⟨-, hrun⟩ := readFsBlock_bind_ok hrun
  obtain ⟨-, -, hrun⟩ := writeFsBlock_bind_ok hrun
  obtain ⟨hck, rfl⟩ := pure_eq_ok hrun
  obtain ⟨rfl, rfl⟩ := Prod.mk.inj hck
  have hbs := hb.grown.layout.blockSize
  obtain ⟨hsound, hext, hat, hdata⟩ := hb.sound.writeBlocks (n := n) (Q := fun q => q = lb)
    (sameLayout_setDisk fs₁ b (blit (fs₁.disk b) off (min remaining (fs.blockSize - off)) buf)) rfl
    (fun c hc => disk_setDisk_of_ne (fun heq => hc lb rfl (hb.blockAt_self.trans heq.symm)) _)
    (fun q hq => by rw [hq, hb.blockAt_self]; exact hb.ne_zero)
  have hall : ∀ q, fs₁.blockData n q = fs.blockData n q := fun q => hb.blockData (.inr rfl)
  refine ⟨by omega, Nat.min_le_left .., hsound, hb.grown.toExtended.trans hext, ?_⟩
  funext j
  have hdm := Nat.div_add_mod j fs.blockSize
  have hmod := Nat.mod_lt j hpos
  unfold Ext2Fs.content
  rw [hext.layout.blockSize, hbs]
  by_cases hj : j / fs.blockSize = lb
  · have hself : (fs₁.setDisk b (blit (fs₁.disk b) off (min remaining (fs.blockSize - off)) buf)).blockData n lb =
        blit (fs.blockData n lb) off (min remaining (fs.blockSize - off)) buf := by
      rw [blockData_of_ne (by rw [hat, hb.blockAt_self]; exact hb.ne_zero), hat, hb.blockAt_self, disk_setDisk_self,
        ← hall, blockData_of_ne (by rw [hb.blockAt_self]; exact hb.ne_zero), hb.blockAt_self]
    rw [hj, hself]
    rw [hj, Nat.mul_comm] at hdm
    unfold blit
    by_cases hin : off ≤ j % fs.blockSize ∧ j % fs.blockSize < off + min remaining (fs.blockSize - off)
    · rw [if_pos hin, if_pos (by omega)]
      congr 1
      omega
    · rw [if_neg hin, if_neg (by omega)]
      simp only [hj]
  · rw [hdata _ hj, hall, blit_of_outside]
    have hlo := Nat.div_lt_iff_lt_mul (x := j) (y := lb) hpos
    have hhi := Nat.le_div_iff_mul_le (x := lb + 1) (y := j) hpos
    rw [Nat.succ_mul] at hhi
    omega

theorem writeChunk_ok (h : fs.Sound P) (hr : fs.inodeCache n = some r) (hmaps : r.mapsBlocks fs.sectors = true)
    {offset remaining c : Nat} (hrem : 0 < remaining) (hlt : offset + remaining ≤ 2 ^ 32 * fs.blockSize)
    (hrun : writeChunk n offset buf remaining fs = .ok (c, k) fs') :
    0 < c ∧ c ≤ remaining ∧ Wrote P n k buf offset c fs fs' := by
  have hpos := blockSize_pos fs
  have hdm := Nat.div_add_mod' offset fs.blockSize
  rw [writeChunk, get_bind] at hrun
  by_cases hfull : offset % fs.blockSize = 0 ∧ remaining ≥ fs.blockSize
  · rw [if_pos hfull] at hrun
    rw [hfull.1, Nat.add_zero] at hdm
    have hbulk := writeBulk_ok h hr hmaps hfull.2 (by rw [hdm]; exact hlt) hrun
    rwa [hdm] at hbulk
  · rw [if_neg hfull] at hrun
    have hlb : offset / fs.blockSize < 2 ^ 32 := (Nat.div_lt_iff_lt_mul hpos).2 (by omega)
    have hpart := writePartial_ok h hr hmaps (Nat.mod_lt _ hpos) hrem hlb hrun
    rwa [hdm] at hpart

/-- A splice continued. -/
theorem Wrote.trans {offset c len : Nat} (h : Wrote P n k buf offset c fs fs₁)
    (h' : Wrote P n k' (dropBytes buf c) (offset + c) (len - c) fs₁ fs') (hc : c ≤ len) :
    Wrote P n (k + k') buf offset len fs fs' where
  sound := h'.sound
  extended := h.extended.trans h'.extended
  content := by
    rw [h'.content, h.content]
    funext j
    unfold blit dropBytes
    split_ifs <;> first
      | rfl
      | (congr 1; omega)

/-- **The loop** writes all of the buffer. -/
theorem writeLoop_ok {offset len : Nat} (hlt : offset + len ≤ 2 ^ 32 * fs.blockSize) (fuel : Nat) {done new : Nat}
    (h : fs.Sound P) (hr : fs.inodeCache n = some r) (hmaps : r.mapsBlocks fs.sectors = true) (hfuel : len - done ≤ fuel) {total : Nat}
    (hrun : writeLoop n offset buf len fuel done new fs = .ok total fs') :
    ∃ k, Wrote P n k (dropBytes buf done) (offset + done) (len - done) fs fs' ∧ total = new + k := by
  have hend : ∀ {fs : Ext2Fs} {done : Nat}, fs.Sound P → len ≤ done →
      Wrote P n 0 (dropBytes buf done) (offset + done) (len - done) fs fs := by
    intro fs done h hle
    refine ⟨h, .refl n fs, ?_⟩
    funext j
    rw [blit_of_outside (by omega)]
  induction fuel generalizing fs done new r with
  | zero =>
    obtain ⟨rfl, rfl⟩ := pure_eq_ok hrun
    exact ⟨0, hend h (by omega), rfl⟩
  | succ fuel ih =>
    rw [writeLoop] at hrun
    by_cases hle : len ≤ done
    · rw [if_pos hle] at hrun
      obtain ⟨rfl, rfl⟩ := pure_eq_ok hrun
      exact ⟨0, hend h hle, rfl⟩
    rw [if_neg hle] at hrun
    obtain ⟨⟨c, k⟩, fs₁, hchunk, hrun⟩ := bind_eq_ok hrun
    have hbs : fs.blockSize ≤ 2 ^ 16 := h.accepted.blockSize_le
    rw [Nat.mod_eq_of_lt (by omega)] at hchunk
    obtain ⟨hpos, hc, hwrote⟩ := writeChunk_ok h hr hmaps (by omega) (by omega) hchunk
    obtain ⟨r₁, hr₁, -, hmaps₁⟩ := hwrote.extended.cached hr hmaps
    obtain ⟨k', hrest, htotal⟩ := ih (hwrote.extended.layout.blockSize ▸ hlt) hwrote.sound hr₁ hmaps₁ (by omega) hrun
    have hdrop : dropBytes (dropBytes buf done) c = dropBytes buf (done + c) := by
      funext j
      simp only [dropBytes, Nat.add_assoc]
    refine ⟨k + k', hwrote.trans ?_ hc, by omega⟩
    rwa [hdrop, Nat.add_assoc, Nat.sub_sub]

end Rounds

/-! ## The whole call -/

section Whole

variable {fs fs₁ fs' : Ext2Fs} {P : Nat → Prop} {n : Nat} {buf : Bytes} {r : RawInode}

/-- The time, the count of blocks and the inode on disk. -/
theorem finishWrite_ok (h : fs.Sound P) (hr : fs.inodeCache n = some r) (hkind : r.HoldsData) {new len count : Nat}
    (hrun : (do
      let sectors ← sectorsPerBlock
      modifyRaw n fun r =>
        let r := r.setMtime 0
        if new % 2 ^ 32 > 0 then r.setBlocks (saturatingAdd 32 r.blocks (new % 2 ^ 32 * sectors % 2 ^ 32)) else r
      writeInodeToDisk n
      return len : FsM Nat) fs = .ok count fs') :
    count = len ∧ Kept P n fs fs' ∧ fs'.fileSize n = fs.fileSize n ∧
      ∃ r', fs'.inodeCache n = some r' ∧ r'.fmt = r.fmt := by
  obtain ⟨r', hr', hrun⟩ := modifyRaw_bind_ok (show (modifyRaw n _ >>= fun _ => _) fs = _ from hrun)
  rw [hr, Option.some.injEq] at hr'
  subst hr'
  have hsame : r.SameRefs (if new % 2 ^ 32 > 0 then
      (r.setMtime 0).setBlocks (saturatingAdd 32 (r.setMtime 0).blocks (new % 2 ^ 32 * (fs.blockSize / 512) % 2 ^ 32))
      else r.setMtime 0) := by
    have htime : r.SameRefs (r.setMtime 0) := RawInode.sameRefs_put (by omega)
    split
    · exact htime.trans (RawInode.sameRefs_put (by omega))
    · exact htime
  have hsize : (if new % 2 ^ 32 > 0 then
      (r.setMtime 0).setBlocks (saturatingAdd 32 (r.setMtime 0).blocks (new % 2 ^ 32 * (fs.blockSize / 512) % 2 ^ 32))
      else r.setMtime 0).fileSize fs.superBlock.hasLargeFile = r.fileSize fs.superBlock.hasLargeFile := by
    have htime : (r.setMtime 0).fileSize fs.superBlock.hasLargeFile = r.fileSize fs.superBlock.hasLargeFile :=
      RawInode.fileSize_put _ (by omega)
    split
    · exact (RawInode.fileSize_put _ (by omega)).trans htime
    · exact htime
  have hkept := h.keep hr hsame hkind.ne_link
  obtain ⟨u, fs₂, hwrite, hrun⟩ := bind_eq_ok hrun
  obtain ⟨hcount, hfs⟩ := pure_eq_ok hrun
  have hback := writeInodeToDisk_ok hkept.sound hwrite
  rw [hfs]
  have hcached : fs₂.inodeCache n = some _ := (congrFun hback.cache n).trans (Function.update_self ..)
  refine ⟨hcount, hkept.trans (hkept.sound.keep_writtenBack hback), ?_, _, hcached, hsame.fmt⟩
  rw [fileSize_of_cached hcached, fileSize_of_cached hr, hback.map.layout.hasLargeFile]
  exact hsize

/-- A call that succeeds has written all of the buffer. -/
theorem writeAtLocked_ok (h : fs.Sound P) (hr : fs.inodeCache n = some r) (hkind : r.HoldsData) {offset len : Nat}
    (hlen : 0 < len) (hend : offset + len ≤ 2 ^ 32 * fs.blockSize) {count : Nat}
    (hrun : writeAtLocked n offset buf len fs = .ok count fs') :
    (∃ k fs₁, Wrote P n k buf offset len fs fs₁ ∧ Kept P n fs₁ fs') ∧ count = len ∧
      (fs'.fileSize n = if offset + len > fs.fileSize n then storedSize fs.superBlock.hasLargeFile r (offset + len)
        else fs.fileSize n) ∧ ∃ r', fs'.inodeCache n = some r' ∧ r'.fmt = r.fmt := by
  have hbs : fs.blockSize ≤ 2 ^ 16 := h.accepted.blockSize_le
  rw [writeAtLocked, if_neg (by omega)] at hrun
  obtain ⟨new, fs₁, hloop, hrun⟩ := bind_eq_ok hrun
  obtain ⟨k, hwrote, -⟩ := writeLoop_ok hend len h hr (hkind.mapsBlocks _) (Nat.le_refl _) hloop
  obtain ⟨r₁, hr₁, hfields⟩ := hwrote.extended.fields r hr
  have hkind₁ := hkind.congr hfields.fmt
  have hsize₁ : fs₁.fileSize n = fs.fileSize n := by
    rw [fileSize_of_cached hr₁, fileSize_of_cached hr, hwrote.extended.layout.hasLargeFile]
    unfold RawInode.fileSize RawInode.dirAcl RawInode.size32
    rw [hfields.fmt, hfields.get (by omega), hfields.get (by omega)]
  obtain ⟨s, fs₂, hsize, hrun⟩ := bind_eq_ok hrun
  obtain ⟨hs, hfs₂⟩ := size_ok hsize
  rw [hs, hfs₂, hsize₁, Nat.mod_eq_of_lt (show offset + len < 2 ^ 64 by omega)] at hrun
  have hdrop : dropBytes buf 0 = buf := by
    funext j
    simp [dropBytes]
  rw [hdrop] at hwrote
  by_cases hbig : offset + len > fs.fileSize n
  · rw [if_pos hbig] at hrun ⊢
    obtain ⟨u, fs₃, hset, hrun⟩ := bind_eq_ok hrun
    obtain ⟨r₂, r₃, hr₂, hfs₃, hsame, -, hstored⟩ := setSize_ok hset
    rw [hr₁, Option.some.injEq] at hr₂
    subst hr₂
    have hkept := hwrote.sound.keep hr₁ hsame hkind₁.ne_link
    rw [← hfs₃] at hkept
    have hr₃ : fs₃.inodeCache n = some r₃ := by
      rw [hfs₃]
      exact Function.update_self ..
    obtain ⟨hcount, hkept', hsize', r₄, hr₄, hfmt⟩ := finishWrite_ok hkept.sound hr₃ (hkind₁.congr hsame.fmt) hrun
    refine ⟨⟨k, fs₁, hwrote, hkept.trans hkept'⟩, hcount, ?_, r₄, hr₄, hfmt.trans (hsame.fmt.trans hfields.fmt)⟩
    rw [hsize', fileSize_of_cached hr₃, hkept.map.layout.hasLargeFile, hstored, hwrote.extended.layout.hasLargeFile]
    unfold storedSize
    rw [hfields.fmt]
  · rw [if_neg hbig] at hrun ⊢
    obtain ⟨hcount, hkept', hsize', r₄, hr₄, hfmt⟩ := finishWrite_ok hwrote.sound hr₁ hkind₁ hrun
    exact ⟨⟨k, fs₁, hwrote, hkept'⟩, hcount, hsize'.trans hsize₁, r₄, hr₄, hfmt.trans hfields.fmt⟩

/-- **`write_at` splices**: the buffer replaces what the file held from `offset` on, the size covers it, and every other
inode keeps its fields and its content. -/
theorem writeAtLocked_splices (h : fs.Sound fun _ => False) (hr : fs.inodeCache n = some r) (hreg : r.fmt = EXT2_S_IFREG)
    {offset len : Nat} (hlen : 0 < len) (hend : offset + len < 2 ^ 32) {count : Nat}
    (hrun : writeAtLocked n offset buf len fs = .ok count fs') :
    count = len ∧ fs'.content n = blit (fs.content n) offset len buf ∧
      fs'.fileSize n = max (fs.fileSize n) (offset + len) ∧
      ∀ m, m ≠ n → fs.IsSlot m → fs'.inode m = fs.inode m ∧ fs'.fileSize m = fs.fileSize m ∧
        fs'.content m = fs.content m := by
  have hpos := blockSize_pos fs
  obtain ⟨⟨k, fs₁, hwrote, hkept⟩, hcount, hsize, -⟩ := writeAtLocked_ok h hr (.inl hreg) hlen (by omega) hrun
  have hstep := hwrote.extended.toStep.trans hkept.step
  refine ⟨hcount, (hkept.content hwrote.sound n).trans hwrote.content, ?_, fun m hm hs => ?_⟩
  · have hstored : storedSize fs.superBlock.hasLargeFile r (offset + len) = offset + len := by
      unfold storedSize
      split <;> omega
    rw [hsize, hstored]
    split <;> omega
  · have hinode := hstep.inode hm hs
    refine ⟨hinode, ?_, hstep.content hm⟩
    rw [Ext2Fs.fileSize, Ext2Fs.fileSize, hinode, hstep.layout.hasLargeFile]

end Whole

/-! ## An image -/

/-- A filesystem in which no inode has a block. -/
theorem sound_of_bare {fs : Ext2Fs} (hp : fs.Placed) (hcached : ∀ n r, fs.inodeCache n = some r → fs.IsSlot n)
    (hroot : ∀ n, fs.IsSlot n → ∀ k, (fs.inode n).block k = 0) (hacl : ∀ n, fs.IsSlot n → (fs.inode n).fileAcl = 0)
    (hused : ∀ b, fs.superBlock.InRange .block b → (fs.Allocated .block b ↔ fs.IsMetadata b)) :
    fs.Sound fun _ => False := by
  have hnode : ∀ x, fs.pointers.node x = 0 := by
    refine Pointers.spot_induction (fun l => ?_) fun x i hx => ?_
    · show (if fs.IsSlot l.1 then (fs.inode l.1).root fs.sectors l.2 else 0) = 0
      split
      · rename_i hs
        unfold RawInode.root
        split
        · exact hroot l.1 hs l.2
        · rfl
      · rfl
    · rw [Pointers.node_below, if_pos hx]
  have hnone : ∀ n, fs.acl n = 0 := by
    intro n
    show (if fs.IsSlot n then (fs.inode n).fileAcl else 0) = 0
    split
    · rename_i hs
      exact hacl n hs
    · rfl
  refine ⟨hp, hcached, fun x _ _ _ hne => absurd (hnode x) hne, fun x _ hne => absurd (hnode x) hne,
    fun n hne => absurd (hnone n) hne, fun n hne => absurd (hnone n) hne, fun b hb hin => (hused b hin).2 hb,
    fun b hb => ?_, fun b hb => hb.elim⟩
  rw [hused b hb.1]
  constructor
  · exact fun hm => absurd hm hb.2
  · rintro (⟨hb0, ⟨x, -, hx⟩ | ⟨n, hn⟩⟩ | hf)
    · exact absurd (hx.symm.trans (hnode x)) hb0
    · exact absurd (hn.symm.trans (hnone n)) hb0
    · exact hf.elim

/-- One group with four inodes and ten free blocks; inode 1 is an empty regular file in memory. -/
def fileImage : Ext2Fs where
  deviceBlocks := 16
  superBlock := ⟨4, 16, 10, 3, 1, 0, 16, 4, 128, 2, 0⟩
  blockGroups := [⟨3, 4, 5, 10, 3, 0⟩]
  readOnly := false
  disk := fun b j => if b = 3 ∧ j = 0 then 0b00011111 else if b = 4 ∧ j = 0 then 1 else 0
  inodeCache := fun n => if n = 1 then some (RawInode.ofBytes fun j => if j = 1 then 0x80 else 0) else none

theorem fileImage_placed : fileImage.Placed where
  geometry := {
    groups := rfl
    perGroup := fun k => by cases k <;> decide
    first := by decide
    blocks := by decide
    inodes := by decide
    inodesLow := by decide
    inodesHigh := by decide
    placed := by
      rintro k (_ | g) bg hg -
      · obtain rfl := Option.some.inj hg
        cases k <;> decide
      · cases hg
    distinct := by
      rintro k (_ | g) bg k' (_ | g') bg' hg hg' - - heq
      all_goals first | cases hg; done | cases hg'; done | skip
      obtain rfl := Option.some.inj hg
      obtain rfl := Option.some.inj hg'
      revert heq
      cases k <;> cases k' <;> decide }
  accepted := ⟨by decide, by decide, by decide, by decide, by decide, by decide, by decide⟩
  onDevice := by decide
  inodes := by decide
  tables := by
    rintro b ⟨p, hp, hlo, hhi⟩
    obtain rfl : p = (3, 4, 5) := by simpa [fileImage, BlockGroupDescriptor.places] using hp
    have hlen : fileImage.tableLength = 1 := by decide
    rw [hlen] at hhi
    have hlo : 5 ≤ b := hlo
    have hhi : b < 5 + 1 := hhi
    obtain rfl : b = 5 := by omega
    refine ⟨by decide, ?_⟩
    rintro ⟨q, hq, h⟩
    obtain rfl : q = (3, 4, 5) := by simpa [fileImage, BlockGroupDescriptor.places] using hq
    revert h
    decide
  apart := by
    rintro (_ | g) (_ | g') p p' i i' hg hg' - - -
    all_goals first | rfl | cases hg; done | cases hg'

theorem fileImage_metadata (b : Nat) : fileImage.IsMetadata b ↔ 1 ≤ b ∧ b ≤ 5 := by
  have hlen : fileImage.tableLength = 1 := by decide
  have hgd : bgdtLength fileImage.superBlock fileImage.blockGroups = 1 := by decide
  have hback : backupGroups fileImage.superBlock = [] := by decide
  unfold Ext2Fs.IsMetadata Ext2Fs.IsBitmap Ext2Fs.IsTable Ext2Fs.IsSuper
  rw [hlen, hgd, hback]
  simp [fileImage, BlockGroupDescriptor.places]
  omega

/-- All fields of all inodes are zero, but for the type of the file. -/
theorem fileImage_get {n : Nat} (hn : fileImage.IsSlot n) {i m : Nat} (hi : 2 ≤ i) : (fileImage.inode n).get i m = 0 := by
  have hbytes : ∀ j, 2 ≤ j → (fileImage.inode n).bytes j = 0 := by
    intro j hj
    have hj' : j ≠ 1 := by omega
    by_cases h1 : n = 1
    · subst h1
      show (if j < 128 then (if j = 1 then _ else 0) else 0) = (0 : Byte)
      simp [hj']
    · have hc : fileImage.inodeCache n = none := if_neg h1
      obtain ⟨b, off, hplace, ⟨p, hp, hlo, hhi⟩, -⟩ := tablePlace_spec fileImage_placed hn
      rw [Ext2Fs.inode, hc, Option.getD_none, diskInode_eq hplace]
      obtain rfl : p = (3, 4, 5) := by simpa [fileImage, BlockGroupDescriptor.places] using hp
      have hne : b ≠ 3 ∧ b ≠ 4 := by
        have : 5 ≤ b := hlo
        omega
      show (if j < 128 then (if b = 3 ∧ off + j = 0 then _ else if b = 4 ∧ off + j = 0 then _ else 0) else 0) = (0 : Byte)
      simp [hne]
  exact (leNat_congr fun j h₁ _ => hbytes j (by omega)).trans leNat_zero

theorem fileImage_sound : fileImage.Sound fun _ => False := by
  refine sound_of_bare fileImage_placed ?_ (fun n hn k => fileImage_get hn (by omega))
    (fun n hn => fileImage_get hn (by omega)) ?_
  · intro n r hr
    obtain rfl : n = 1 := by
      by_contra hn
      simp [fileImage, hn] at hr
    decide
  · have hbits : ∀ b < 16, 1 ≤ b → (fileImage.bit .block (fileImage.superBlock.groupOf .block b)
        (fileImage.superBlock.bitOf .block b) = true ↔ b ≤ 5) := by decide
    intro b hin
    rw [fileImage_metadata, Ext2Fs.Allocated, and_iff_right hin, hbits b hin.2 hin.1]
    exact (and_iff_right hin.1).symm

/-- An inode without blocks takes the place of one without blocks. -/
theorem Ext2Fs.Sound.setInode_bare {fs : Ext2Fs} {P : Nat → Prop} (h : fs.Sound P) {n : Nat} (hn : fs.IsSlot n)
    (hold : ∀ i m, 40 ≤ i → (fs.inode n).get i m = 0) {r : RawInode} (hnew : ∀ i m, 40 ≤ i → r.get i m = 0) :
    (fs.setInode n (some r)).Sound P := by
  have hroot : ∀ r : RawInode, (∀ i m, 40 ≤ i → r.get i m = 0) → ∀ k, r.root fs.sectors k = 0 := fun r hr k => by
    unfold RawInode.root
    split
    · exact hr _ _ (by omega)
    · rfl
  exact h.setInode hn rfl (fun k => (hroot r hnew k).trans (hroot _ hold k).symm)
    ((hnew _ _ (by omega)).trans (hold _ _ (by omega)).symm)

/-- The image with another inode in memory, which has no blocks. -/
theorem fileImage_with {n : Nat} (hn : fileImage.IsSlot n) {r : RawInode} (hr : ∀ j, 40 ≤ j → r.bytes j = 0) :
    ((fileImage.setInode n (some r)).Sound fun _ => False) ∧ (fileImage.setInode n (some r)).blockCount n = 0 := by
  have hget : ∀ i m, 40 ≤ i → r.get i m = 0 := fun i m hi =>
    (leNat_congr fun j h₁ _ => hr j (by omega)).trans leNat_zero
  have hroot : ∀ k, r.root fileImage.sectors k = 0 := fun k => by
    unfold RawInode.root
    split
    · exact hget _ _ (by omega)
    · rfl
  refine ⟨fileImage_sound.setInode_bare hn (fun i m hi => fileImage_get hn (by omega)) hget, ?_⟩
  have hzero : ∀ k, (fileImage.setInode n (some r)).pointers.root (n, k) = 0 := fun k => by
    show (if _ then RawInode.root _ ((fileImage.setInode n (some r)).inode n) k else 0) = 0
    rw [inode_setInode_self]
    split
    · exact hroot k
    · rfl
  have hacl : (fileImage.setInode n (some r)).acl n = 0 := by
    show (if _ then ((fileImage.setInode n (some r)).inode n).fileAcl else 0) = 0
    rw [inode_setInode_self]
    split
    · exact hget _ _ (by omega)
    · rfl
  rw [Ext2Fs.blockCount, hacl, Ext2Fs.treeSize, Pointers.count_eq_sum, List.map_map]
  simp [hzero, Function.comp_def]

/-- Four bytes across the end of the first block. -/
theorem writeAtLocked_splices_fileImage : ∃ fs', writeAtLocked 1 1022 (fun _ => 7) 4 fileImage = .ok 4 fs' ∧
    fs'.content 1 = blit (fileImage.content 1) 1022 4 (fun _ => 7) ∧ fs'.fileSize 1 = 1026 := by
  obtain ⟨count, fs', hrun⟩ := exists_of_succeeds (writeAtLocked 1 1022 (fun _ => 7) 4) fileImage
    (by decide +kernel)
  obtain ⟨rfl, hcontent, hsize, -⟩ := writeAtLocked_splices fileImage_sound rfl (by decide) (by decide) (by decide) hrun
  have hsize₀ : fileImage.fileSize 1 = 0 := by decide
  exact ⟨fs', hrun, hcontent, by rw [hsize, hsize₀]; rfl⟩

end Koros.Ext2
