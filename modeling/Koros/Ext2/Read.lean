import Koros.Ext2.Content

/-!
# What `read_at` reads

The loop of `read_at` alternates between parts of one block, holes, and runs of contiguous blocks. Logical blocks are
cast to 32 bits before they are resolved.

- `extendRun_ok`: a run that is read at once lies behind successive logical blocks;
- `readChunk_ok`, `readLoop_ok`: every round reads what lies behind its logical blocks;
- `readAt_ok`: a call returns the bytes of the content up to the size.
-/
set_option autoImplicit false

namespace Koros.Ext2

open Koros.Lib Xattr
open Pointers (below)

section Read

variable {fs fs' : Ext2Fs} {P : Nat → Prop} {n lb : Nat} {r : RawInode}

/-- The byte that is read at an offset. -/
def Ext2Fs.byteAt (fs : Ext2Fs) (n j : Nat) : Byte := fs.blockData n (j / fs.blockSize % 2 ^ 32) (j % fs.blockSize)

/-- As long as its logical block has 32 bits, it is the byte of the content. -/
theorem byteAt_eq_content {j : Nat} (h : j < 2 ^ 32 * fs.blockSize) : fs.byteAt n j = fs.content n j := by
  unfold Ext2Fs.byteAt Ext2Fs.content
  rw [Nat.mod_eq_of_lt ((Nat.div_lt_iff_lt_mul (blockSize_pos fs)).2 h)]

theorem blockAt_succ_lt (hs : fs.Sound P) {q : Nat} (hne : fs.blockAt n q ≠ 0) : fs.blockAt n q + 1 < 2 ^ 32 := by
  have hlt := (hs.blockAt_data hne).1.2
  have := hs.geometry.blocks
  omega

/-- **A run** lies behind successive logical blocks. -/
theorem extendRun_ok (hs : fs.Sound P) (hr : fs.inodeCache n = some r) (hmaps : r.mapsBlocks fs.sectors = true)
    {phys : Nat} (count : Nat) {run run' : Nat} (hpos : 0 < run)
    (hrun : ∀ i < run, fs.blockAt n ((lb + i) % 2 ^ 32) = phys + i) (hphys : phys ≠ 0)
    (hcall : extendRun n lb phys count run fs = .ok run' fs') :
    fs' = fs ∧ run ≤ run' ∧ run' ≤ run + count ∧ ∀ i < run', fs.blockAt n ((lb + i) % 2 ^ 32) = phys + i := by
  induction count generalizing run with
  | zero =>
    obtain ⟨hrun', hfs⟩ := pure_eq_ok hcall
    rw [hrun']
    exact ⟨hfs, Nat.le_refl _, Nat.le_refl _, hrun⟩
  | succ count ih =>
    obtain ⟨np, fs₁, hres, hcall⟩ := bind_eq_ok hcall
    obtain ⟨hnp, hfs₁⟩ := resolveBlockId_ok (hs.cached n r hr) hr hmaps hres
    rw [hfs₁] at hcall
    by_cases hnext : np = (phys + run) % 2 ^ 32
    · rw [if_pos hnext] at hcall
      -- the block before is one of the filesystem, so its number is not the last that there is
      have hlast := hrun (run - 1) (by omega)
      have hlt := blockAt_succ_lt hs (n := n) (q := (lb + (run - 1)) % 2 ^ 32) (by omega)
      have hblock : fs.blockAt n ((lb + run) % 2 ^ 32) = phys + run := by
        rw [Ext2Fs.blockAt, ← Nat.mod_add_mod, ← hnp, hnext, Nat.mod_eq_of_lt (by omega)]
      obtain ⟨hfs, hle, hle', hall⟩ := ih (Nat.succ_pos run) (fun i hi => by
        rcases Nat.lt_or_eq_of_le (Nat.le_of_lt_succ hi) with hi | rfl
        · exact hrun i hi
        · exact hblock) hcall
      exact ⟨hfs, by omega, by omega, hall⟩
    · rw [if_neg hnext] at hcall
      obtain ⟨hrun', hfs⟩ := pure_eq_ok hcall
      rw [hrun']
      exact ⟨hfs, Nat.le_refl _, by omega, hrun⟩

/-- A part of one block. -/
theorem readPartial_ok (hs : fs.Sound P) (hr : fs.inodeCache n = some r) (hmaps : r.mapsBlocks fs.sectors = true)
    {off remaining c : Nat} {data : Bytes} (hoff : off < fs.blockSize) (hrem : 0 < remaining)
    (hcall : readPartial n lb off remaining fs = .ok (data, c) fs') :
    fs' = fs ∧ 0 < c ∧ c ≤ remaining ∧ ∀ i < c, data i = fs.byteAt n (lb * fs.blockSize + off + i) := by
  have hpos := blockSize_pos fs
  have hbyte : ∀ i < min remaining (fs.blockSize - off),
      fs.byteAt n (lb * fs.blockSize + off + i) = fs.blockData n (lb % 2 ^ 32) (off + i) := by
    intro i hi
    obtain ⟨hdiv, hmod⟩ := mul_add_div_mod (i := lb) (j := off + i) (b := fs.blockSize) (by omega)
    rw [Ext2Fs.byteAt, Nat.add_assoc, hdiv, hmod]
  rw [readPartial, get_bind] at hcall
  obtain ⟨phys, fs₁, hres, hcall⟩ := bind_eq_ok hcall
  obtain ⟨hphys, hfs₁⟩ := resolveBlockId_ok (hs.cached n r hr) hr hmaps hres
  rw [hfs₁] at hcall
  by_cases h0 : phys = 0
  · rw [if_pos h0] at hcall
    obtain ⟨hdata, hfs⟩ := pure_eq_ok hcall
    obtain ⟨rfl, rfl⟩ := Prod.mk.inj hdata
    refine ⟨hfs, by omega, Nat.min_le_left .., fun i hi => ?_⟩
    rw [hbyte i hi, blockData_of_zero (hphys.symm.trans h0)]
    rfl
  · rw [if_neg h0] at hcall
    obtain ⟨-, hcall⟩ := readFsBlock_bind_ok hcall
    obtain ⟨hdata, hfs⟩ := pure_eq_ok hcall
    obtain ⟨rfl, rfl⟩ := Prod.mk.inj hdata
    refine ⟨hfs, by omega, Nat.min_le_left .., fun i hi => ?_⟩
    have hne : fs.blockAt n (lb % 2 ^ 32) ≠ 0 := fun h => h0 (hphys.trans h)
    rw [hbyte i hi, blockData_of_ne hne, hphys]
    rfl

/-- **One round** of the loop. -/
theorem readChunk_ok (hs : fs.Sound P) (hr : fs.inodeCache n = some r) (hmaps : r.mapsBlocks fs.sectors = true)
    {offset remaining c : Nat} {data : Bytes} (hrem : 0 < remaining)
    (hcall : readChunk n offset remaining fs = .ok (data, c) fs') :
    fs' = fs ∧ 0 < c ∧ c ≤ remaining ∧ ∀ i < c, data i = fs.byteAt n (offset + i) := by
  have hpos := blockSize_pos fs
  have hdm := Nat.div_add_mod' offset fs.blockSize
  have hpart : ∀ {data c fs'}, readPartial n (offset / fs.blockSize) (offset % fs.blockSize) remaining fs = .ok (data, c) fs' →
      fs' = fs ∧ 0 < c ∧ c ≤ remaining ∧ ∀ i < c, data i = fs.byteAt n (offset + i) := by
    intro data c fs' hcall
    have := readPartial_ok hs hr hmaps (Nat.mod_lt _ hpos) hrem hcall
    rwa [hdm] at this
  rw [readChunk, get_bind] at hcall
  dsimp only at hcall
  by_cases hfull : offset % fs.blockSize = 0 ∧ remaining ≥ fs.blockSize
  · rw [if_pos hfull] at hcall
    rw [hfull.1, Nat.add_zero] at hdm
    obtain ⟨phys, fs₁, hres, hcall⟩ := bind_eq_ok hcall
    obtain ⟨hphys, hfs₁⟩ := resolveBlockId_ok (hs.cached n r hr) hr hmaps hres
    rw [hfs₁] at hcall
    by_cases h0 : phys = 0
    · rw [if_neg (not_not.2 h0)] at hcall
      exact hpart hcall
    · rw [if_pos h0] at hcall
      obtain ⟨run, fs₂, hext, hcall⟩ := bind_eq_ok hcall
      obtain ⟨hfs₂, hle, hle', hall⟩ := extendRun_ok hs hr hmaps _ Nat.one_pos (fun i hi => by
        obtain rfl : i = 0 := by omega
        exact hphys.symm) h0 hext
      have hmax : min (remaining / fs.blockSize) MAX_BULK_BLOCKS ≤ remaining / fs.blockSize := Nat.min_le_left ..
      have hone : 1 ≤ remaining / fs.blockSize := (Nat.le_div_iff_mul_le hpos).2 (by omega)
      have hfit : run * fs.blockSize ≤ remaining :=
        Nat.le_trans (Nat.mul_le_mul_right _ (show run ≤ remaining / fs.blockSize by omega)) (Nat.div_mul_le_self ..)
      rw [hfs₂, readFsBlocks, bind_assoc, get_bind] at hcall
      by_cases hdev : phys + run ≤ fs.deviceBlocks
      · rw [if_pos hdev] at hcall
        obtain ⟨hdata, hfs⟩ := pure_eq_ok hcall
        obtain ⟨rfl, rfl⟩ := Prod.mk.inj hdata
        refine ⟨hfs, Nat.mul_pos (by omega) hpos, hfit, fun i hi => ?_⟩
        have hq : i / fs.blockSize < run := (Nat.div_lt_iff_lt_mul hpos).2 hi
        have hblock := hall _ hq
        have hidm := Nat.div_add_mod' i fs.blockSize
        have hlt := Nat.mod_lt i hpos
        obtain ⟨hdiv, hmod⟩ := mul_add_div_mod (i := offset / fs.blockSize + i / fs.blockSize) (j := i % fs.blockSize) hlt
        rw [Nat.add_mul, hdm, Nat.add_assoc, hidm] at hdiv hmod
        rw [Ext2Fs.byteAt, hdiv, hmod, blockData_of_ne fun h => h0 (Nat.add_eq_zero_iff.1 (hblock.symm.trans h)).1, hblock]
      · rw [if_neg hdev] at hcall
        obtain ⟨v, fs₃, hfail, -⟩ := bind_eq_ok hcall
        exact absurd hfail fail_ne_ok
  · rw [if_neg hfull] at hcall
    exact hpart hcall

/-- **The loop** fills the buffer up to its end. -/
theorem readLoop_ok (hs : fs.Sound P) (hr : fs.inodeCache n = some r) (hmaps : r.mapsBlocks fs.sectors = true)
    {offset len : Nat} (fuel : Nat) {done : Nat} {buf buf' : Bytes} (hfuel : len - done ≤ fuel)
    (hbuf : ∀ i < done, buf i = fs.byteAt n (offset + i)) (hcall : readLoop n offset len fuel done buf fs = .ok buf' fs') :
    fs' = fs ∧ ∀ i < len, buf' i = fs.byteAt n (offset + i) := by
  induction fuel generalizing done buf with
  | zero =>
    obtain ⟨rfl, hfs⟩ := pure_eq_ok hcall
    exact ⟨hfs, fun i hi => hbuf i (by omega)⟩
  | succ fuel ih =>
    rw [readLoop] at hcall
    by_cases hle : len ≤ done
    · rw [if_pos hle] at hcall
      obtain ⟨rfl, hfs⟩ := pure_eq_ok hcall
      exact ⟨hfs, fun i hi => hbuf i (by omega)⟩
    rw [if_neg hle] at hcall
    obtain ⟨⟨data, c⟩, fs₁, hchunk, hcall⟩ := bind_eq_ok hcall
    obtain ⟨hfs₁, hpos, hc, hdata⟩ := readChunk_ok hs hr hmaps (by omega) hchunk
    rw [hfs₁] at hcall
    refine ih (by omega) (fun i hi => ?_) hcall
    by_cases hin : i < done
    · rw [blit_of_outside (.inl hin)]
      exact hbuf i hin
    · rw [blit_of_inside (by omega) hi, hdata _ (by omega)]
      congr 1
      omega

/-- **`read_at`** returns the bytes up to the size, and nothing behind it. -/
theorem readAt_ok (hs : fs.Sound P) (hr : fs.inodeCache n = some r) (hmaps : r.mapsBlocks fs.sectors = true)
    {offset len count : Nat} {buf : Bytes} (hcall : readAt n offset len fs = .ok (buf, count) fs') :
    fs' = fs ∧ count = min len (fs.fileSize n - offset) ∧ ∀ i < count, buf i = fs.byteAt n (offset + i) := by
  obtain ⟨size, fs₁, hsize, hcall⟩ := bind_eq_ok hcall
  obtain ⟨rfl, hfs₁⟩ := size_ok hsize
  rw [hfs₁] at hcall
  by_cases hend : offset ≥ fs.fileSize n ∨ len = 0
  · rw [if_pos hend] at hcall
    obtain ⟨hbuf, hfs⟩ := pure_eq_ok hcall
    obtain ⟨rfl, rfl⟩ := Prod.mk.inj hbuf
    exact ⟨hfs, by omega, fun i hi => absurd hi (Nat.not_lt_zero i)⟩
  · rw [if_neg hend] at hcall
    obtain ⟨out, fs₂, hloop, hcall⟩ := bind_eq_ok hcall
    obtain ⟨hfs₂, hout⟩ := readLoop_ok hs hr hmaps _ (Nat.le_refl _) (fun i hi => absurd hi (Nat.not_lt_zero i)) hloop
    obtain ⟨hbuf, hfs⟩ := pure_eq_ok hcall
    obtain ⟨rfl, rfl⟩ := Prod.mk.inj hbuf
    exact ⟨hfs.trans hfs₂, rfl, hout⟩

/-! ## Reads that succeed -/

/-- The pointer to a block that is there. -/
theorem readIndirectEntry_eq (hs : fs.Sound P) {x : (Nat × Nat) × List Nat} {i : Nat}
    (hin : fs.pointers.Inside (below x i)) (hne : fs.pointers.node (below x i) ≠ 0) :
    readIndirectEntry (fs.pointers.node x) i fs = .ok (fs.pointers.node (below x i)) fs := by
  have hx := Pointers.node_ne_zero_of_under (Pointers.under_below x i) hne
  have hi : i < fs.blockSize / 4 := (bounds_of_node _ hne).2.2 i (by simp [below])
  rw [readIndirectEntry, get_bind, bind_ok (readFsBlock_eq (hs.lt (hs.tree x hin.of_below hx)).1),
    if_neg (index_lt.2 hi), Pointers.node_below_of_ne hx]
  exact congrArg (EStateM.Result.ok · fs) (if_pos hi).symm

/-- A block that is there is found. -/
theorem resolveBlockId_eq (hs : fs.Sound P) (hr : fs.inodeCache n = some r) (hmaps : r.mapsBlocks fs.sectors = true)
    {q : Nat} (hne : fs.blockAt n q ≠ 0) : resolveBlockId n q fs = .ok (fs.blockAt n q) fs := by
  have hroot : ∀ k, k < 15 → fs.pointers.node ((n, k), []) = r.block k := fun k =>
    root_of_cached hr (hs.cached n r hr) hmaps
  have hin := inside_spotOf fs n q
  unfold Ext2Fs.blockAt at hne ⊢
  rw [resolveBlockId, ptrsPerBlock_bind, bind_ok (raw_eq hr)]
  dsimp only
  by_cases h₁ : q < DIRECT_BLOCKS
  · rw [if_pos h₁, ← hroot q (Nat.lt_trans h₁ (by decide)), spotOf, if_pos h₁]
    rfl
  rw [if_neg h₁]
  by_cases h₂ : q < DIRECT_BLOCKS + fs.blockSize / 4
  · rw [spotOf_single h₁ h₂] at hne hin ⊢
    have htop := Pointers.node_ne_zero_of_under (Pointers.under_below _ _) hne
    rw [if_pos h₂, ← hroot 12 (by omega), if_neg htop]
    exact readIndirectEntry_eq hs hin hne
  rw [if_neg h₂]
  by_cases h₃ : q < DIRECT_BLOCKS + fs.blockSize / 4 + fs.blockSize / 4 * (fs.blockSize / 4)
  · rw [spotOf_double h₁ h₂ h₃] at hne hin ⊢
    have hmid := Pointers.node_ne_zero_of_under (Pointers.under_below _ _) hne
    have htop := Pointers.node_ne_zero_of_under (Pointers.under_below _ _) hmid
    rw [if_pos h₃, ← hroot 13 (by omega), if_neg htop, bind_ok (readIndirectEntry_eq hs hin.of_below hmid), if_neg hmid]
    exact readIndirectEntry_eq hs hin hne
  rw [spotOf_triple h₁ h₂ h₃] at hne hin ⊢
  have hlow := Pointers.node_ne_zero_of_under (Pointers.under_below _ _) hne
  have hmid := Pointers.node_ne_zero_of_under (Pointers.under_below _ _) hlow
  have htop := Pointers.node_ne_zero_of_under (Pointers.under_below _ _) hmid
  rw [if_neg h₃, ← hroot 14 (by omega), if_neg htop, bind_ok (readIndirectEntry_eq hs hin.of_below.of_below hmid),
    if_neg hmid, bind_ok (readIndirectEntry_eq hs hin.of_below hlow), if_neg hlow]
  exact readIndirectEntry_eq hs hin hne

theorem size_eq (hr : fs.inodeCache n = some r) : size n fs = .ok (fs.fileSize n) fs := by
  rw [size, get_bind, bind_ok (raw_eq hr), fileSize_of_cached hr]
  rfl

section Runs

variable (hs : fs.Sound P) (hr : fs.inodeCache n = some r) (hmaps : r.mapsBlocks fs.sectors = true)

include hs hr hmaps

theorem extendRun_runs (phys count : Nat) {run : Nat} (hmap : ∀ i < run + count, fs.blockAt n ((lb + i) % 2 ^ 32) ≠ 0) :
    ∃ run', extendRun n lb phys count run fs = .ok run' fs := by
  induction count generalizing run with
  | zero => exact ⟨run, rfl⟩
  | succ count ih =>
    have hres := resolveBlockId_eq hs hr hmaps (hmap run (by omega))
    rw [extendRun, Nat.mod_add_mod, bind_ok hres]
    by_cases hnext : fs.blockAt n ((lb + run) % 2 ^ 32) = (phys + run) % 2 ^ 32
    · rw [if_pos hnext]
      exact ih fun i hi => hmap i (by omega)
    · rw [if_neg hnext]
      exact ⟨run, rfl⟩

/-- A round succeeds if all its blocks are there. -/
theorem readChunk_runs (offset remaining : Nat)
    (hmap : ∀ i < remaining, fs.blockAt n ((offset + i) / fs.blockSize % 2 ^ 32) ≠ 0) (hrem : 0 < remaining) :
    ∃ data c, readChunk n offset remaining fs = .ok (data, c) fs := by
  have hpos := blockSize_pos fs
  have hfirst := hmap 0 hrem
  rw [Nat.add_zero] at hfirst
  have hdev : ∀ q, fs.blockAt n q ≠ 0 → fs.blockAt n q < fs.deviceBlocks := fun q hq => (hs.lt (hs.blockAt_data hq)).1
  rw [readChunk, get_bind]
  dsimp only
  by_cases hfull : offset % fs.blockSize = 0 ∧ remaining ≥ fs.blockSize
  · rw [if_pos hfull, bind_ok (resolveBlockId_eq hs hr hmaps hfirst), if_pos hfirst]
    have hmax : min (remaining / fs.blockSize) MAX_BULK_BLOCKS ≤ remaining / fs.blockSize := Nat.min_le_left ..
    have hone : 1 ≤ remaining / fs.blockSize := (Nat.le_div_iff_mul_le hpos).2 (by omega)
    have hblocks : ∀ i < 1 + (min (remaining / fs.blockSize) MAX_BULK_BLOCKS - 1),
        fs.blockAt n ((offset / fs.blockSize + i) % 2 ^ 32) ≠ 0 := fun i hi => by
      have hi' : i < remaining / fs.blockSize := by
        have : 1 ≤ MAX_BULK_BLOCKS := by decide
        omega
      have := hmap (i * fs.blockSize) (Nat.lt_of_lt_of_le
        ((Nat.mul_lt_mul_right hpos).2 hi') (Nat.div_mul_le_self ..))
      rwa [Nat.add_mul_div_right _ _ hpos] at this
    obtain ⟨run, hrun⟩ := extendRun_runs hs hr hmaps (fs.blockAt n (offset / fs.blockSize % 2 ^ 32)) _ hblocks
    obtain ⟨-, hle, hle', hall⟩ := extendRun_ok hs hr hmaps _ Nat.one_pos (fun i hi => by
      obtain rfl : i = 0 := by omega
      rfl) hfirst hrun
    rw [bind_ok hrun, readFsBlocks, bind_assoc, get_bind, if_pos ?_]
    · exact ⟨_, _, rfl⟩
    · have hlast := hall (run - 1) (by omega)
      have := hdev _ (hblocks (run - 1) (by omega))
      omega
  · rw [if_neg hfull, readPartial, get_bind, bind_ok (resolveBlockId_eq hs hr hmaps hfirst), if_neg hfirst,
      bind_ok (readFsBlock_eq (hdev _ hfirst))]
    exact ⟨_, _, rfl⟩

theorem readLoop_runs {offset len : Nat} (hmap : ∀ i < len, fs.blockAt n ((offset + i) / fs.blockSize % 2 ^ 32) ≠ 0)
    (fuel done : Nat) (buf : Bytes) : ∃ buf', readLoop n offset len fuel done buf fs = .ok buf' fs := by
  induction fuel generalizing done buf with
  | zero => exact ⟨buf, rfl⟩
  | succ fuel ih =>
    rw [readLoop]
    by_cases hle : len ≤ done
    · rw [if_pos hle]
      exact ⟨buf, rfl⟩
    · rw [if_neg hle]
      obtain ⟨data, c, hchunk⟩ := readChunk_runs hs hr hmaps (offset + done) (len - done)
        (fun i hi => by
          have := hmap (done + i) (by omega)
          rwa [← Nat.add_assoc] at this) (by omega)
      rw [bind_ok hchunk]
      exact ih _ _

/-- **A read succeeds** if all its blocks are there. -/
theorem readAt_runs (offset len : Nat) (hend : offset + len ≤ fs.fileSize n)
    (hmap : ∀ i < len, fs.blockAt n ((offset + i) / fs.blockSize % 2 ^ 32) ≠ 0) :
    ∃ buf, readAt n offset len fs = .ok (buf, len) fs := by
  rw [readAt, bind_ok (size_eq hr)]
  by_cases h0 : len = 0
  · rw [if_pos (.inr h0), h0]
    exact ⟨_, rfl⟩
  · obtain ⟨buf, hloop⟩ := readLoop_runs hs hr hmaps hmap len 0 fun _ => 0
    rw [if_neg (by omega), Nat.min_eq_left (by omega), bind_ok hloop]
    exact ⟨buf, rfl⟩

end Runs

/-- A byte that is there can be read alone. -/
theorem readAt_one (hs : fs.Sound P) (hr : fs.inodeCache n = some r) (hmaps : r.mapsBlocks fs.sectors = true) {j : Nat}
    (hlt : j < fs.fileSize n) (hne : fs.blockAt n (j / fs.blockSize % 2 ^ 32) ≠ 0) :
    ∃ buf, readAt n j 1 fs = .ok (buf, 1) fs :=
  readAt_runs hs hr hmaps j 1 (by omega) fun i hi => by
    obtain rfl : i = 0 := by omega
    exact hne

end Read

end Koros.Ext2
