import Koros.Lib.Effect
import Koros.Ext2.Read
import Koros.Ext2.Write

/-!
# A write that stops halfway

`allocate_block_for_offset` takes the data block before the indirect blocks above it, and `write_at_locked` goes from block
to block; either may fail after some blocks were taken. Here is what each of them leaves, whether it succeeds or not
(`Ends`): a data block may be held back and lost (`Holding`), the counters agree with the bitmaps (`Spent`), and only the
bytes that the call was about to write have changed (`Touches`).

- `allocateBlockForOffset_ends`: a failure leaves nothing, or a data block that is taken and hangs nowhere;
- `writeLoop_ends`, `writeAtLocked_ends`: the same for a whole write, at any offset;
- `free_eq_zero_iff`: the free counter is zero exactly if no block is free.
-/
set_option autoImplicit false

namespace Koros.Ext2

open Koros.Lib Xattr
open Pointers (below)

/-! ## Counters -/

section Counters

variable {fs fs' fs'' : Ext2Fs} {P : Nat → Prop} {n k k' b : Nat}

/-- The counters agree with the bitmaps, and `k` blocks were taken. -/
structure Spent (k : Nat) (fs fs' : Ext2Fs) : Prop where
  consistent : fs'.Consistent
  free : fs.superBlock.freeBlocksCount = fs'.superBlock.freeBlocksCount + k

theorem Spent.refl (hc : fs.Consistent) : Spent 0 fs fs := ⟨hc, rfl⟩

theorem Spent.trans (h : Spent k fs fs') (h' : Spent k' fs' fs'') : Spent (k + k') fs fs'' :=
  ⟨h'.consistent, by rw [h.free, h'.free]; omega⟩

theorem spent_take (hc : fs.Consistent) (hb : Taken .block fs fs' b) : Spent 1 fs fs' := by
  obtain ⟨hin, hfree, rfl⟩ := hb
  have hbit : fs.bit .block (fs.superBlock.groupOf .block b) (fs.superBlock.bitOf .block b) = false := by
    simpa [Ext2Fs.Allocated, hin] using hfree
  obtain ⟨bg, hbg⟩ := hc.toGeometry.exists_group hin
  have hpos := hc.free_pos hbg (SuperBlock.bitOf_lt_valid (hc.perGroup .block).1 hin) hbit
  have hle : bg.free .block ≤ fs.superBlock.freeBlocksCount := hc.free_le_total hbg
  refine ⟨mark_consistent hc hin hbit, ?_⟩
  unfold Ext2Fs.mark
  rw [hbg]
  show fs.superBlock.freeBlocksCount = fs.superBlock.freeBlocksCount - 1 + 1
  omega

/-- Nothing changes in the bitmaps and the counters. -/
theorem spent_quiet (hc : fs.Consistent) (hl : SameLayout fs fs') (hsb : fs'.superBlock = fs.superBlock)
    (hbg : fs'.blockGroups = fs.blockGroups) (hbits : ∀ b, fs.IsBitmap b → fs'.disk b = fs.disk b) : Spent 0 fs fs' := by
  refine ⟨{ toGeometry := hl.geometry hc.toGeometry, group := fun {k g bg} hg => ?_, total := fun k => ?_ }, by rw [hsb]; rfl⟩
  · rw [hbg] at hg
    rw [hc.group hg, hsb]
    exact clearCount_congr fun i _ => (hl.bit hbits k g i).symm
  · rw [hsb, hbg]
    exact hc.total k

theorem spent_setDisk (hc : fs.Consistent) (hb : ¬ fs.IsBitmap b) (buf : Bytes) : Spent 0 fs (fs.setDisk b buf) := by
  refine spent_quiet hc (sameLayout_setDisk fs b buf) rfl rfl fun c hbit => disk_setDisk_of_ne ?_ buf
  rintro rfl
  exact hb hbit

theorem spent_setInode (hc : fs.Consistent) (n : Nat) (r : Option RawInode) : Spent 0 fs (fs.setInode n r) :=
  ⟨consistent_withCache hc _, rfl⟩

/-- **No block is free** exactly if the counter says so. -/
theorem free_eq_zero_iff (hc : fs.Consistent) :
    fs.superBlock.freeBlocksCount = 0 ↔ ∀ b, fs.superBlock.InRange .block b → fs.Allocated .block b := by
  have htotal : fs.superBlock.freeBlocksCount = (fs.blockGroups.map (·.free .block)).sum := hc.total .block
  constructor
  · intro h0 b hin
    obtain ⟨bg, hbg⟩ := hc.toGeometry.exists_group hin
    have hle : bg.free .block ≤ fs.superBlock.freeBlocksCount := hc.free_le_total hbg
    exact ⟨hin, full_of_free_eq_zero hc hbg (by omega) _ (SuperBlock.bitOf_lt_valid (hc.perGroup .block).1 hin)⟩
  · intro hfull
    rw [htotal, List.sum_eq_zero_iff]
    intro c hmem
    obtain ⟨bg, hbg, rfl⟩ := List.mem_map.1 hmem
    obtain ⟨g, hg⟩ := List.mem_iff_getElem?.1 hbg
    by_contra hne
    rw [hc.group hg] at hne
    obtain ⟨i, hi, hbit⟩ := exists_clear_of_clearCount_pos (Nat.pos_of_ne_zero hne)
    exact not_allocated_number hi hbit (hfull _ (SuperBlock.inRange_number hi))

end Counters

/-! ## Errors -/

/-- No crash, and `NoSpace` only when no block is free. -/
def Cause (e : Fault) (fs : Ext2Fs) : Prop := e ≠ .panic ∧ (e = .err .noSpace → fs.superBlock.freeBlocksCount = 0)

theorem cause_of_ne (e : FsError) (h : e ≠ .noSpace) (fs : Ext2Fs) : Cause (.err e) fs :=
  ⟨nofun, fun he => absurd (Fault.err.inj he) h⟩

/-- A call that failed and has changed nothing. -/
def Refused (fs : Ext2Fs) (e : Fault) (fs' : Ext2Fs) : Prop := fs' = fs ∧ Cause e fs

/-- What was held back is held back still, and `d` is the number of blocks beside. -/
def Holding (P : Nat → Prop) (d : Nat) (P' : Nat → Prop) : Prop :=
  d = 0 ∧ P' = P ∨ d = 1 ∧ ∃ b, ¬ P b ∧ P' = fun c => P c ∨ c = b

section Alloc

variable {fs fs' : Ext2Fs} {P : Nat → Prop} {n k : Nat} {r : RawInode} {x : (Nat × Nat) × List Nat} {α : Type}

theorem allocBlockGoal_ends (hc : fs.Consistent) (goal : Nat) :
    Ends (fun b fs' => Taken .block fs fs' b ∧ fs.readOnly = false) (Refused fs)
      (allocBlockGoal goal) fs := by
  rcases alloc_cases hc .block goal with ⟨b, hin, hfree, hrun⟩ | ⟨hrun, hfull⟩ | ⟨hrun, -⟩
  · refine .ok hrun ⟨⟨hin, hfree, rfl⟩, ?_⟩
    by_contra hro
    have herr := (alloc_readOnly (Bool.eq_true_of_not_eq_false hro) .block goal).symm.trans hrun
    cases herr
  · exact .error hrun ⟨rfl, nofun, fun _ => (free_eq_zero_iff hc).2 hfull⟩
  · exact .error hrun ⟨rfl, cause_of_ne .readOnly nofun fs⟩

theorem onError_eq {y : FsM α} {cleanup : FsM Unit} {a : α} (h : y fs = .ok a fs') : onError y cleanup fs = .ok a fs' := by
  unfold onError
  rw [h]

/-- A block that is held back is cleared. -/
theorem Drawn.clear_ends {fs₁ : Ext2Fs} {b : Nat} (hd : Drawn P n b fs fs₁) (hs : Spent 1 fs fs₁) (hro : fs.readOnly = false) :
    ∃ fs₂, onError (writeFsBlock b zeroBlock) (freeBlock b) fs₁ = .ok ⟨⟩ fs₂ ∧ Drawn P n b fs fs₂ ∧
      fs₂.disk b = zeroBlock ∧ Spent 1 fs fs₂ := by
  have hdata := (hd.sound.pending b (.inr rfl)).1
  refine ⟨_, onError_eq (writeFsBlock_eq (hd.map.layout.readOnly.trans hro) (hd.sound.lt hdata).1 _), hd.write zeroBlock,
    disk_setDisk_self .., ?_⟩
  exact hs.trans (spent_setDisk hs.consistent hdata.not_bitmap _)

theorem allocAndZeroBlock_ends (h : fs.Sound P) (hc : fs.Consistent) (n : Nat) :
    Ends (fun b fs' => Drawn P n b fs fs' ∧ fs'.disk b = zeroBlock ∧ Spent 1 fs fs' ∧ fs.readOnly = false)
      (Refused fs) (allocAndZeroBlock n) fs := by
  obtain ⟨g, hg⟩ := blockGroup_bind n (fun x => do
    let block ← allocBlockGoal x
    onError (writeFsBlock block zeroBlock) (freeBlock block)
    return block) fs
  refine .congr hg ((allocBlockGoal_ends hc g).bind fun b fs₁ ⟨hb, hro⟩ => ?_)
  obtain ⟨fs₂, hzero, hd, hz, hs⟩ := (drawn_of_taken h hb n).clear_ends (spent_take hc hb) hro
  exact .ok (bind_ok hzero) ⟨hd, hz, hs, hro⟩

/-! ## The way down -/

theorem readIndirectEntry_ends (fs : Ext2Fs) (b i : Nat) :
    Ends (fun v fs' => (i < fs.blockSize / 4 ∧ v = fs.pointers.child b i) ∧ fs' = fs) (Refused fs)
      (readIndirectEntry b i) fs := by
  refine .congr (get_bind ..) ?_
  by_cases hb : b < fs.deviceBlocks
  · refine .step (readFsBlock_eq hb) ?_
    by_cases hi : i * 4 + 4 > fs.blockSize
    · rw [if_pos hi]
      exact .error rfl ⟨rfl, cause_of_ne .invalidInput (by decide) fs⟩
    · rw [if_neg hi]
      exact .ok rfl ⟨⟨index_lt.1 hi, (if_pos (index_lt.1 hi)).symm⟩, rfl⟩
  · have hread : readFsBlock b fs = .error (.err .ioError) fs := by
      rw [readFsBlock, get_bind, if_neg hb]
      rfl
    exact .error (bind_error hread) ⟨rfl, cause_of_ne .ioError (by decide) fs⟩

/-- **Resolving** a block changes nothing. -/
theorem resolveBlockId_ends (hs : fs.IsSlot n) (hr : fs.inodeCache n = some r) (hmaps : r.mapsBlocks fs.sectors = true)
    (q : Nat) : Ends (fun b fs' => b = fs.blockAt n q ∧ fs' = fs) (Refused fs) (resolveBlockId n q) fs := by
  have hpure : ∀ b : Nat, Ends (fun _ fs' => fs' = fs) (Refused fs) (pure b : FsM Nat) fs := fun b => .ok rfl rfl
  have hentry : ∀ b i, Ends (fun _ fs' => fs' = fs) (Refused fs) (readIndirectEntry b i) fs := fun b i =>
    (readIndirectEntry_ends fs b i).imp (fun _ _ _ hv => hv.2) fun _ _ he => he
  have hnext : ∀ (b i : Nat) (f : Nat → FsM Nat), (∀ c, Ends (fun _ fs' => fs' = fs) (Refused fs) (f c) fs) →
      Ends (fun _ fs' => fs' = fs) (Refused fs) (do
        let c ← readIndirectEntry b i
        if c = 0 then return 0 else f c) fs := by
    intro b i f hf
    refine (hentry b i).bind fun c fs₁ hfs₁ => ?_
    rw [hfs₁]
    split
    · exact hpure 0
    · exact hf c
  have hstill : Ends (fun _ fs' => fs' = fs) (Refused fs) (resolveBlockId n q) fs := by
    refine .congr (ptrsPerBlock_bind ..) (.step (raw_eq hr) ?_)
    dsimp only
    split
    · exact hpure _
    · split
      · split
        · exact hpure _
        · exact hentry _ _
      · split
        · split
          · exact hpure _
          · exact hnext _ _ _ fun c => hentry _ _
        · split
          · exact hpure _
          · exact hnext _ _ _ fun c => hnext _ _ _ fun c' => hentry _ _
  exact hstill.imp (fun b fs' hrun _ => resolveBlockId_ok hs hr hmaps hrun) fun _ _ he => he

theorem topIndirect_ends (h : fs.Sound P) (hc : fs.Consistent) (hr : fs.inodeCache n = some r)
    (hmaps : r.mapsBlocks fs.sectors = true) {slot : Nat} (h12 : 12 ≤ slot) (h15 : slot < 15) :
    Ends (fun top fs' => Down P n top.2 top.1 ((n, slot), []) fs fs' ∧ Spent top.2 fs fs')
      (Refused fs) (topIndirect n slot) fs := by
  have hspent : Ends (fun top fs' => Spent top.2 fs fs') (Refused fs) (topIndirect n slot) fs := by
    refine .step (raw_eq hr) ?_
    by_cases h0 : r.block slot = 0
    · rw [if_pos h0]
      refine (allocAndZeroBlock_ends h hc n).bind fun b fs₁ ⟨hd, _, hs, _⟩ => ?_
      refine .step (modifyRaw_eq (by rw [hd.cache]; exact hr) _) (.ok rfl ?_)
      exact hs.trans (spent_setInode hs.consistent n _)
    · rw [if_neg h0]
      exact .ok rfl (.refl hc)
  refine hspent.imp (fun top fs' hrun hs => ⟨?_, hs⟩) fun _ _ he => he
  rw [← bind_pure (topIndirect n slot)] at hrun
  obtain ⟨c, k, fs₁, hdown, hrun⟩ := topIndirect_bind_ok h hr hmaps h12 h15 hrun
  obtain ⟨rfl, rfl⟩ := pure_eq_ok hrun
  exact hdown

/-- A pointer of an indirect block is written. -/
theorem writeIndirectEntry_eq (h : fs.Sound P) (hro : fs.readOnly = false) (hx : fs.pointers.Inner x) {i : Nat}
    (hi : i < fs.blockSize / 4) (v : Nat) : writeIndirectEntry (fs.pointers.node x) i v fs =
      .ok ⟨⟩ (fs.setDisk (fs.pointers.node x) (putLe (fs.disk (fs.pointers.node x)) (i * 4) 4 v)) := by
  have hlt := (h.lt (h.tree x hx.inside hx.2)).1
  rw [writeIndirectEntry, get_bind, bind_ok (readFsBlock_eq hlt), if_neg (index_lt.2 hi), writeFsBlock_eq hro hlt]

theorem nextIndirect_ends (h : fs.Sound P) (hc : fs.Consistent) (hx : fs.pointers.Inner x) (i : Nat)
    (hdepth : x.2.length + 1 < fs.pointers.depth x.1) :
    Ends (fun next fs' => Down P x.1.1 next.2 next.1 (below x i) fs fs' ∧ Spent next.2 fs fs')
      (Refused fs) (nextIndirect x.1.1 (fs.pointers.node x) i) fs := by
  have hspent : Ends (fun next fs' => Spent next.2 fs fs') (Refused fs)
      (nextIndirect x.1.1 (fs.pointers.node x) i) fs := by
    refine (readIndirectEntry_ends fs (fs.pointers.node x) i).bind ?_
    rintro v _ ⟨⟨hi, -⟩, rfl⟩
    by_cases h0 : v = 0
    · rw [if_pos h0]
      refine (allocAndZeroBlock_ends h hc x.1.1).bind fun b fs₁ ⟨hd, _, hs, hro⟩ => ?_
      have hnode := hd.map.node hx.inside
      have hx₁ : fs₁.pointers.Inner x := ⟨hx.1, by rw [hnode]; exact hx.2⟩
      have hwrite := writeIndirectEntry_eq hd.sound (hd.map.layout.readOnly.trans hro) hx₁
        (by rw [hd.map.layout.blockSize]; exact hi) b
      rw [hnode] at hwrite
      refine .step hwrite (.ok rfl (hs.trans (spent_setDisk hs.consistent ?_ _)))
      rw [← hnode]
      exact (hd.sound.tree x hx₁.inside hx₁.2).not_bitmap
    · rw [if_neg h0]
      exact .ok rfl (.refl hc)
  refine hspent.imp (fun next fs' hrun hs => ⟨?_, hs⟩) fun _ _ he => he
  rw [← bind_pure (nextIndirect x.1.1 (fs.pointers.node x) i)] at hrun
  obtain ⟨c, k, fs₁, hdown, hrun⟩ := nextIndirect_bind_ok h hx hdepth hrun
  obtain ⟨rfl, rfl⟩ := pure_eq_ok hrun
  exact hdown

/-! ## Allocating -/

/-- Data block `b` was taken and hangs nowhere, and `k` indirect blocks were linked. -/
structure Stranded (P : Nat → Prop) (n b k : Nat) (fs fs' : Ext2Fs) : Prop where
  sound : fs'.Sound (fun c => P c ∨ c = b)
  fresh : ¬ P b
  grown : Grown n k fs fs'
  leaves : ∀ z, z.2.length = fs.pointers.depth z.1 → fs'.pointers.node z = fs.pointers.node z
  spent : Spent (k + 1) fs fs'

theorem Drawn.stranded {fs₁ fs₂ : Ext2Fs} {b : Nat} (hd : Drawn P n b fs fs₁) (hs : Spent 1 fs fs₁)
    (hb : Branched (fun c => P c ∨ c = b) n k fs₁ fs₂) (hs' : Spent k fs₁ fs₂) : Stranded P n b k fs fs₂ where
  sound := hb.sound
  fresh := hd.fresh
  grown := Nat.zero_add k ▸ hd.grown.trans hb.grown
  leaves := fun z hz => (hb.leaves z hz).trans (hd.map.node (Nat.le_of_eq hz))
  spent := Nat.add_comm 1 k ▸ hs.trans hs'

/-- How allocating fails: before anything was taken, or with a block that is lost. -/
def Halted (P : Nat → Prop) (n : Nat) (fs : Ext2Fs) (e : Fault) (fs' : Ext2Fs) : Prop :=
  Cause e fs' ∧ (fs' = fs ∨ ∃ b k, Stranded P n b k fs fs')

theorem Refused.halted {e : Fault} (h : Refused fs e fs') (P : Nat → Prop) (n : Nat) : Halted P n fs e fs' := by
  obtain ⟨rfl, hcause⟩ := h
  exact ⟨hcause, .inl rfl⟩

/-- A failure on the way down. -/
theorem Drawn.halted {fs₁ fs₂ : Ext2Fs} {b : Nat} {e : Fault} (hd : Drawn P n b fs fs₁) (hs : Spent 1 fs fs₁)
    (hb : Branched (fun c => P c ∨ c = b) n k fs₁ fs₂) (hs' : Spent k fs₁ fs₂) (he : Refused fs₂ e fs') :
    Halted P n fs e fs' := by
  obtain ⟨rfl, hcause⟩ := he
  exact ⟨hcause, .inr ⟨b, k, hd.stranded hs hb hs'⟩⟩

/-- The entry of the lowest indirect block. -/
theorem linkEntry_ends {fs₀ : Ext2Fs} {b c i : Nat} (h : fs.Sound P) (hs : Spent k fs₀ fs) (hro : fs.readOnly = false)
    (hx : fs.pointers.Inner x) (hc : fs.pointers.node x = c) (hi : i < fs.blockSize / 4) (res : Nat × Nat)
    (R : Fault → Ext2Fs → Prop) :
    Ends (fun res' fs' => res' = res ∧ Spent k fs₀ fs') R (do
      writeIndirectEntry c i b
      return res) fs := by
  subst hc
  refine .step (writeIndirectEntry_eq h hro hx hi b) (.ok rfl ⟨rfl, hs.trans (spent_setDisk hs.consistent ?_ _)⟩)
  exact (h.tree x hx.inside hx.2).not_bitmap

/-- Linking the block that was taken: the way down, level by level. -/
theorem linkTaken_ends (hr : fs.inodeCache n = some r) (hmaps : r.mapsBlocks fs.sectors = true)
    (hro : fs.readOnly = false) {fs₁ : Ext2Fs} {lb nb : Nat} (hd : Drawn P n nb fs fs₁) (hs : Spent 1 fs fs₁) :
    Ends (fun res fs' => Spent res.2 fs fs') (Halted P n fs) (linkTaken n lb nb (fs.blockSize / 4)) fs₁ := by
  have hr₁ : fs₁.inodeCache n = some r := by rw [hd.cache]; exact hr
  have hmaps₁ : r.mapsBlocks fs₁.sectors = true := by rw [hd.map.layout.sectors]; exact hmaps
  have hp : 0 < fs.blockSize / 4 := by
    have : 1024 ≤ fs.blockSize := fs.superBlock.blockSize_ge
    omega
  have hrefl := Branched.refl hd.sound n
  have hrefl' := Spent.refl hs.consistent
  rw [linkTaken]
  by_cases h₁ : lb < DIRECT_BLOCKS
  · rw [if_pos h₁]
    exact .step (modifyRaw_eq hr₁ _) (.ok rfl (hs.trans (spent_setInode hs.consistent n _)))
  rw [if_neg h₁]
  by_cases h₂ : lb < DIRECT_BLOCKS + fs.blockSize / 4
  · rw [if_pos h₂]
    refine ((topIndirect_ends hd.sound hs.consistent hr₁ hmaps₁ (by decide) (by decide)).imp (fun _ _ _ h => h)
      fun e fs' he => hd.halted hs hrefl hrefl' he).bind ?_
    rintro ⟨c, k₁⟩ fs₂ ⟨hdown, hs₁⟩
    have hl := hd.map.layout.trans hdown.grown.layout
    refine (linkEntry_ends hdown.sound (hs.trans hs₁) (hl.readOnly.trans hro) hdown.inner hdown.node ?_ _ _).imp
      (fun res fs' _ hres => ?_) fun _ _ he => he
    · rw [hl.blockSize]
      omega
    · rw [hres.1]
      exact hres.2
  rw [if_neg h₂]
  by_cases h₃ : lb < DIRECT_BLOCKS + fs.blockSize / 4 + fs.blockSize / 4 * (fs.blockSize / 4)
  · rw [if_pos h₃]
    refine ((topIndirect_ends hd.sound hs.consistent hr₁ hmaps₁ (by decide) (by decide)).imp (fun _ _ _ h => h)
      fun e fs' he => hd.halted hs hrefl hrefl' he).bind ?_
    rintro ⟨c, k₁⟩ fs₂ ⟨hdown, hs₁⟩
    dsimp only at hdown hs₁ ⊢
    rw [← hdown.node]
    refine ((nextIndirect_ends hdown.sound hs₁.consistent hdown.inner _ (by exact Nat.lt_succ_self 1)).imp
      (fun _ _ _ h => h) fun e fs' he => hd.halted hs hdown.branched hs₁ he).bind ?_
    rintro ⟨c₂, k₂⟩ fs₃ ⟨hdown₂, hs₂⟩
    have hl := (hd.map.layout.trans hdown.grown.layout).trans hdown₂.grown.layout
    refine (linkEntry_ends hdown₂.sound ((hs.trans hs₁).trans hs₂) (hl.readOnly.trans hro) hdown₂.inner hdown₂.node ?_
      _ _).imp (fun res fs' _ hres => ?_) fun _ _ he => he
    · rw [hl.blockSize]
      exact Nat.mod_lt _ hp
    · rw [hres.1]
      exact hres.2
  · rw [if_neg h₃]
    refine ((topIndirect_ends hd.sound hs.consistent hr₁ hmaps₁ (by decide) (by decide)).imp (fun _ _ _ h => h)
      fun e fs' he => hd.halted hs hrefl hrefl' he).bind ?_
    rintro ⟨c, k₁⟩ fs₂ ⟨hdown, hs₁⟩
    dsimp only at hdown hs₁ ⊢
    rw [← hdown.node]
    refine ((nextIndirect_ends hdown.sound hs₁.consistent hdown.inner _ (by exact Nat.lt_of_sub_eq_succ rfl)).imp
      (fun _ _ _ h => h) fun e fs' he => hd.halted hs hdown.branched hs₁ he).bind ?_
    rintro ⟨c₂, k₂⟩ fs₃ ⟨hdown₂, hs₂⟩
    dsimp only at hdown₂ hs₂ ⊢
    rw [← hdown₂.node]
    refine ((nextIndirect_ends hdown₂.sound hs₂.consistent hdown₂.inner _ (by exact Nat.lt_succ_self 2)).imp
      (fun _ _ _ h => h) fun e fs' he =>
        hd.halted hs (hdown.branched.trans hdown₂.branched) (hs₁.trans hs₂) he).bind ?_
    rintro ⟨c₃, k₃⟩ fs₄ ⟨hdown₃, hs₃⟩
    have hl := ((hd.map.layout.trans hdown.grown.layout).trans hdown₂.grown.layout).trans hdown₃.grown.layout
    refine (linkEntry_ends hdown₃.sound (((hs.trans hs₁).trans hs₂).trans hs₃) (hl.readOnly.trans hro) hdown₃.inner
      hdown₃.node ?_ _ _).imp (fun res fs' _ hres => ?_) fun _ _ he => he
    · rw [hl.blockSize]
      exact Nat.mod_lt _ hp
    · rw [hres.1]
      exact hres.2

/-- **Allocating**, whether it succeeds or not. -/
theorem allocateBlockForOffset_ends (h : fs.Sound P) (hc : fs.Consistent) (hr : fs.inodeCache n = some r)
    (hmaps : r.mapsBlocks fs.sectors = true) (q : Nat) (zeroed : Bool) :
    Ends (fun res fs' => Backed P n q res.2 res.1 zeroed fs fs' ∧ Spent res.2 fs fs') (Halted P n fs)
      (allocateBlockForOffset n q zeroed) fs := by
  have hspent : Ends (fun res fs' => Spent res.2 fs fs') (Halted P n fs) (allocateBlockForOffset n q zeroed) fs := by
    refine ((resolveBlockId_ends (h.cached n r hr) hr hmaps q).imp (fun _ _ _ hb => hb)
      fun _ _ he => he.halted P n).bind ?_
    intro b fs₁ hb
    rw [hb.2]
    by_cases h0 : b = 0
    · rw [if_neg (not_not.2 h0)]
      refine .congr (ptrsPerBlock_bind ..) ?_
      obtain ⟨g, hg⟩ := blockGroup_bind n _ fs
      refine .congr hg (((allocBlockGoal_ends hc g).imp (fun _ _ _ hb => hb) fun _ _ he => he.halted P n).bind ?_)
      rintro nb fs₁ ⟨htaken, hro⟩
      have hd := drawn_of_taken h htaken n
      have hs := spent_take hc htaken
      cases zeroed with
      | false => exact linkTaken_ends hr hmaps hro hd hs
      | true =>
        obtain ⟨fs₂, hzero, hd', -, hs'⟩ := hd.clear_ends hs hro
        exact .step hzero (linkTaken_ends hr hmaps hro hd' hs')
    · rw [if_pos h0]
      exact .ok rfl (.refl hc)
  exact hspent.imp (fun res fs' hrun hs => ⟨allocateBlockForOffset_ok h hr hmaps hrun, hs⟩) fun _ _ he => he

end Alloc

/-! ## Writing -/

section Writing

variable {fs fs₁ fs' : Ext2Fs} {P P' : Nat → Prop} {n k k' d lb : Nat} {r : RawInode} {T : Nat → Prop} {e : Fault}
  {buf : Bytes}

/-- `k` blocks were taken for inode `n` and `d` are lost, and of its content only the bytes in `T` have changed. -/
structure Touches (P : Nat → Prop) (n k d : Nat) (T : Nat → Prop) (fs fs' : Ext2Fs) : Prop where
  sound : fs'.Sound P
  extended : Extended n k fs fs'
  spent : Spent (k + d) fs fs'
  outside : ∀ j, ¬ T j → fs'.content n j = fs.content n j

theorem Touches.refl (h : fs.Sound P) (hc : fs.Consistent) : Touches P n 0 0 T fs fs :=
  ⟨h, .refl n fs, .refl hc, fun _ _ => rfl⟩

theorem Touches.trans (h : Touches P n k 0 T fs fs₁) (h' : Touches P' n k' d T fs₁ fs') :
    Touches P' n (k + k') d T fs fs' :=
  ⟨h'.sound, h.extended.trans h'.extended, Nat.add_assoc k k' d ▸ h.spent.trans h'.spent,
    fun j hj => (h'.outside j hj).trans (h.outside j hj)⟩

/-- How a write fails. -/
def Broken (P : Nat → Prop) (n : Nat) (T : Nat → Prop) (fs : Ext2Fs) (e : Fault) (fs' : Ext2Fs) : Prop :=
  Cause e fs' ∧ ∃ P' k d, Holding P d P' ∧ Touches P' n k d T fs fs'

theorem Broken.after (h : Touches P n k 0 T fs fs₁) (h' : Broken P n T fs₁ e fs') : Broken P n T fs e fs' := by
  obtain ⟨hcause, P', k', d, hhold, htouch⟩ := h'
  exact ⟨hcause, P', k + k', d, hhold, h.trans htouch⟩

theorem Refused.broken (h : Refused fs e fs') (hs : fs.Sound P) (hc : fs.Consistent) : Broken P n T fs e fs' := by
  obtain ⟨rfl, hcause⟩ := h
  exact ⟨hcause, P, 0, 0, .inl ⟨rfl, rfl⟩, .refl hs hc⟩

/-- A block that is lost is not part of the content. -/
theorem Stranded.touches {b : Nat} (h : Stranded P n b k fs fs') : Touches (fun c => P c ∨ c = b) n k 1 T fs fs' := by
  refine ⟨h.sound, h.grown.toExtended, h.spent, fun j _ => congrFun (content_congr h.grown.layout.blockSize fun q => ?_) j⟩
  refine blockData_congr ?_ fun hne => h.grown.data _ (spotOf_depth fs _ n q) hne
  rw [h.grown.layout.blockAt]
  exact h.leaves _ (spotOf_depth fs _ n q)

theorem Halted.broken (h : Halted P n fs e fs') (hs : fs.Sound P) (hc : fs.Consistent) : Broken P n T fs e fs' := by
  obtain ⟨hcause, rfl | ⟨b, k, hstranded⟩⟩ := h
  · exact ⟨hcause, P, 0, 0, .inl ⟨rfl, rfl⟩, .refl hs hc⟩
  · exact ⟨hcause, _, k, 1, .inr ⟨rfl, b, hstranded.fresh, rfl⟩, hstranded.touches⟩

/-- The bytes outside a block that was allocated. -/
theorem Backed.touches {q b : Nat} {zeroed : Bool} (h : Backed P n q k b zeroed fs fs') (hs : Spent k fs fs')
    (hT : zeroed = true ∨ ∀ j, j / fs.blockSize = q → T j) : Touches P n k 0 T fs fs' := by
  refine ⟨h.sound, h.grown.toExtended, hs, fun j hj => ?_⟩
  unfold Ext2Fs.content
  rw [h.grown.layout.blockSize, h.blockData]
  rcases hT with hz | hT
  · exact .inr hz
  · exact .inl fun hq => hj (hT j hq)

/-- A block that is there stays where it is. -/
theorem Extended.blockAt (h : Extended n k fs fs') {q : Nat} (hne : fs.blockAt n q ≠ 0) :
    fs'.blockAt n q = fs.blockAt n q := by
  rw [h.layout.blockAt]
  exact h.keep _ (inside_spotOf fs n q) hne

/-- Adjacent blocks behind the logical blocks from `lb` on, whose numbers wrap around. -/
structure Adjacent (n lb runStart runLen : Nat) (fs : Ext2Fs) : Prop where
  pos : 0 < runLen
  ne_zero : runStart ≠ 0
  run : ∀ i < runLen, fs.blockAt n ((lb + i) % 2 ^ 32) = runStart + i

theorem Adjacent.mono {runStart runLen : Nat} (h : Adjacent n lb runStart runLen fs) (hext : Extended n k fs fs') :
    Adjacent n lb runStart runLen fs' where
  pos := h.pos
  ne_zero := h.ne_zero
  run := fun i hi => by
    have hne := h.ne_zero
    have hrun := h.run i hi
    rw [hext.blockAt (by omega), hrun]

/-- The last of the blocks is one of the filesystem. -/
theorem Adjacent.le {runStart runLen : Nat} (h : Adjacent n lb runStart runLen fs) (hs : fs.Sound P) :
    runStart + runLen ≤ fs.deviceBlocks ∧ runStart + runLen < 2 ^ 32 := by
  have hpos := h.pos
  have hne := h.ne_zero
  have hlast := h.run (runLen - 1) (by omega)
  have hdata := hs.blockAt_data (n := n) (q := (lb + (runLen - 1)) % 2 ^ 32) (by omega)
  have hlt := hdata.1.2
  have hon := hs.onDevice
  have := hs.geometry.blocks
  omega

/-- The blocks of a run are written. -/
theorem writeFsBlocks_ends {runStart runLen : Nat} (h : Adjacent n lb runStart runLen fs) (hs : fs.Sound P)
    (hc : fs.Consistent) (hT : ∀ i < runLen, ∀ j, j / fs.blockSize = (lb + i) % 2 ^ 32 → T j) (buf : Bytes) :
    Ends (fun _ fs' => Touches P n 0 0 T fs fs' ∧ fs.readOnly = false) (Refused fs) (writeFsBlocks runStart runLen buf) fs := by
  have hne := h.ne_zero
  cases hro : fs.readOnly with
  | true =>
    have hrun : writeFsBlocks runStart runLen buf fs = .error (.err .readOnly) fs := by
      rw [writeFsBlocks, get_bind, if_pos hro]
      rfl
    exact .error hrun ⟨rfl, cause_of_ne .readOnly (by decide) fs⟩
  | false =>
    have hrun : writeFsBlocks runStart runLen buf fs = .ok ⟨⟩ (fs.setDisks runStart runLen buf) := by
      rw [writeFsBlocks, get_bind, if_neg (by simp [hro]), if_pos (h.le hs).1]
      rfl
    have hl := sameLayout_setDisks fs runStart runLen buf
    obtain ⟨hsound, hext, -, hdata⟩ := hs.writeBlocks (n := n) (Q := fun q => ∃ i < runLen, q = (lb + i) % 2 ^ 32) hl rfl
      (fun c hc => if_neg fun hin => by
        refine hc _ ⟨c - runStart, by omega, rfl⟩ ?_
        rw [h.run _ (by omega)]
        omega)
      (by
        rintro q ⟨i, hi, rfl⟩
        rw [h.run i hi]
        omega)
    refine .ok hrun ⟨⟨hsound, hext, spent_quiet hc hl rfl rfl fun c hbit => if_neg fun hin => ?_, fun j hj => ?_⟩, rfl⟩
    · have hblock := h.run (c - runStart) (by omega)
      have hdata := hs.blockAt_data (n := n) (q := (lb + (c - runStart)) % 2 ^ 32) (by omega)
      rw [hblock, Nat.add_sub_of_le hin.1] at hdata
      exact hdata.not_bitmap hbit
    · unfold Ext2Fs.content
      rw [hl.blockSize, hdata]
      rintro ⟨i, hi, hq⟩
      exact hj (hT i hi j hq)

/-- What the inner loop leaves when it ends. -/
structure Collected (P : Nat → Prop) (n lb total new : Nat) (T : Nat → Prop) (fs : Ext2Fs) (w : WriteRun) (fs' : Ext2Fs) :
    Prop where
  touches : ∃ k, Touches P n k 0 T fs fs' ∧ w.newFsBlocks = new + k
  adjacent : Adjacent n (lb + w.doneInRegion) w.runStart w.runLen fs'
  total : w.doneInRegion + w.runLen = total

theorem Collected.after {total new : Nat} {w : WriteRun} (h : Touches P n k 0 T fs fs₁)
    (h' : Collected P n lb total (new + k) T fs₁ w fs') : Collected P n lb total new T fs w fs' := by
  obtain ⟨⟨k', htouch, hnew⟩, hcont, htotal⟩ := h'
  exact ⟨⟨k + k', h.trans htouch, by omega⟩, hcont, htotal⟩

/-- The next block continues the run. -/
theorem Adjacent.grow {runStart runLen : Nat} (h : Adjacent n lb runStart runLen fs)
    (hb : fs.blockAt n ((lb + runLen) % 2 ^ 32) = runStart + runLen) : Adjacent n lb runStart (runLen + 1) fs where
  pos := Nat.succ_pos _
  ne_zero := h.ne_zero
  run := fun i hi => by
    rcases Nat.lt_or_eq_of_le (Nat.le_of_lt_succ hi) with hi | rfl
    · exact h.run i hi
    · exact hb

theorem adjacent_one {b : Nat} (hne : b ≠ 0) (hb : fs.blockAt n (lb % 2 ^ 32) = b) : Adjacent n lb b 1 fs where
  pos := Nat.one_pos
  ne_zero := hne
  run := fun i hi => by
    obtain rfl : i = 0 := by omega
    exact hb

/-- **The inner loop.** -/
theorem writeRegion_ends (buf : Bytes) (count : Nat) {w : WriteRun} (h : fs.Sound P) (hc : fs.Consistent) (hr : fs.inodeCache n = some r)
    (hmaps : r.mapsBlocks fs.sectors = true) (hcont : Adjacent n (lb + w.doneInRegion) w.runStart w.runLen fs)
    (hT : ∀ i < w.doneInRegion + w.runLen + count, ∀ j, j / fs.blockSize = (lb + i) % 2 ^ 32 → T j) :
    Ends (Collected P n lb (w.doneInRegion + w.runLen + count) w.newFsBlocks T fs) (Broken P n T fs)
      (writeRegion n lb buf count w) fs := by
  induction count generalizing w fs r with
  | zero => exact .ok rfl ⟨⟨0, .refl h hc, rfl⟩, hcont, rfl⟩
  | succ count ih =>
    refine ((allocateBlockForOffset_ends h hc hr hmaps ((lb + w.doneInRegion + w.runLen) % 2 ^ 32) false).imp
      (fun _ _ _ hb => hb) fun _ _ he => he.broken h hc).bind ?_
    rintro ⟨b, k₁⟩ fs₁ ⟨hb, hs⟩
    dsimp only at hb hs ⊢
    have htouch : Touches P n k₁ 0 T fs fs₁ :=
      hb.touches hs (.inr fun j hj => hT (w.doneInRegion + w.runLen) (by omega) j (by rw [hj, Nat.add_assoc]))
    have hbs := hb.grown.layout.blockSize
    have hcont₁ := hcont.mono htouch.extended
    obtain ⟨r₁, hr₁, -, hmaps₁⟩ := htouch.extended.cached hr hmaps
    rw [Nat.mod_eq_of_lt (hcont.le h).2]
    by_cases hnext : b = w.runStart + w.runLen
    · rw [if_pos hnext]
      have hrest := ih (w := { w with runLen := w.runLen + 1, newFsBlocks := w.newFsBlocks + k₁ }) htouch.sound
        htouch.spent.consistent hr₁ hmaps₁ (hcont₁.grow (by rw [hb.blockAt_self, hnext])) fun i hi => by
          rw [hbs]
          exact hT i (by dsimp only at hi; omega)
      refine hrest.imp (fun w' fs' _ hw => ?_) fun _ _ he => he.after htouch
      have hafter := hw.after htouch
      exact ⟨hafter.touches, hafter.adjacent, by rw [hafter.total]; dsimp only; omega⟩
    · rw [if_neg hnext]
      have hflush := writeFsBlocks_ends (T := T) hcont₁ htouch.sound htouch.spent.consistent (fun i hi => by
        rw [hbs, Nat.add_assoc]
        exact hT (w.doneInRegion + i) (by omega)) (dropBytes buf (w.doneInRegion * fs₁.blockSize))
      refine .congr (get_bind ..) ((hflush.imp (fun _ _ _ h => h) fun _ _ he =>
        (he.broken htouch.sound htouch.spent.consistent).after htouch).bind ?_)
      rintro u fs₂ ⟨hwrite, -⟩
      have htouch₂ := htouch.trans hwrite
      obtain ⟨r₂, hr₂, -, hmaps₂⟩ := htouch₂.extended.cached hr hmaps
      have hnode : fs₂.blockAt n ((lb + (w.doneInRegion + w.runLen)) % 2 ^ 32) = b := by
        rw [← Nat.add_assoc, hwrite.extended.blockAt (by rw [hb.blockAt_self]; exact hb.ne_zero), hb.blockAt_self]
      have hrest := ih (w := ⟨b, 1, w.doneInRegion + w.runLen, w.newFsBlocks + k₁⟩) htouch₂.sound
        htouch₂.spent.consistent hr₂ hmaps₂ (adjacent_one hb.ne_zero hnode) fun i hi => by
          rw [htouch₂.extended.layout.blockSize]
          exact hT i (by dsimp only at hi; omega)
      refine hrest.imp (fun w' fs' _ hw => ?_) fun _ _ he => he.after htouch₂
      have hafter := hw.after htouch₂
      exact ⟨hafter.touches, hafter.adjacent, by rw [hafter.total]; dsimp only; omega⟩

/-- What a round of the loop leaves when it ends: how many bytes, and how many blocks. -/
structure Advanced (P : Nat → Prop) (n remaining : Nat) (T : Nat → Prop) (fs : Ext2Fs) (res : Nat × Nat) (fs' : Ext2Fs) :
    Prop where
  pos : 0 < res.1
  le : res.1 ≤ remaining
  touches : Touches P n res.2 0 T fs fs'
  writable : fs.readOnly = false

theorem writeBulk_ends (h : fs.Sound P) (hc : fs.Consistent) (hr : fs.inodeCache n = some r)
    (hmaps : r.mapsBlocks fs.sectors = true) {remaining : Nat} (hrem : fs.blockSize ≤ remaining)
    (hT : ∀ i < remaining / fs.blockSize, ∀ j, j / fs.blockSize = (lb + i) % 2 ^ 32 → T j) :
    Ends (Advanced P n remaining T fs) (Broken P n T fs) (writeBulk n lb buf remaining) fs := by
  have hpos := blockSize_pos fs
  have hone : 1 ≤ remaining / fs.blockSize := (Nat.le_div_iff_mul_le hpos).2 (by omega)
  refine .congr (get_bind ..) (((allocateBlockForOffset_ends h hc hr hmaps (lb % 2 ^ 32) false).imp (fun _ _ _ hb => hb)
    fun _ _ he => he.broken h hc).bind ?_)
  rintro ⟨b, k₁⟩ fs₁ ⟨hb, hs⟩
  dsimp only at hb hs ⊢
  have htouch : Touches P n k₁ 0 T fs fs₁ := hb.touches hs (.inr fun j hj => hT 0 (by omega) j hj)
  have hbs := hb.grown.layout.blockSize
  obtain ⟨r₁, hr₁, -, hmaps₁⟩ := htouch.extended.cached hr hmaps
  have hmax : min (remaining / fs.blockSize) MAX_BULK_BLOCKS ≤ remaining / fs.blockSize := Nat.min_le_left ..
  have hregion := writeRegion_ends buf (min (remaining / fs.blockSize) MAX_BULK_BLOCKS - 1) (w := ⟨b, 1, 0, k₁⟩)
    htouch.sound htouch.spent.consistent hr₁ hmaps₁ (adjacent_one hb.ne_zero hb.blockAt_self) (T := T) fun i hi => by
      rw [hbs]
      exact hT i (by dsimp only at hi; omega)
  refine (hregion.imp (fun _ _ _ hw => hw) fun _ _ he => he.after htouch).bind ?_
  intro w fs₂ hw
  obtain ⟨k₂, htouch₂, hnew⟩ := hw.touches
  have hall := htouch.trans htouch₂
  have htotal := hw.total
  dsimp only at htotal hnew
  have hflush := writeFsBlocks_ends (T := T) hw.adjacent hall.sound hall.spent.consistent (fun i hi => by
    rw [hall.extended.layout.blockSize, Nat.add_assoc]
    exact hT (w.doneInRegion + i) (by omega)) (dropBytes buf (w.doneInRegion * fs.blockSize))
  refine (hflush.imp (fun _ _ _ hw => hw) fun _ _ he => (he.broken hall.sound hall.spent.consistent).after hall).bind ?_
  rintro u fs₃ ⟨hwrite, hro⟩
  refine .ok rfl ⟨Nat.mul_pos (by have := hw.adjacent.pos; omega) hpos, ?_, ?_, ?_⟩
  · refine Nat.le_trans (Nat.mul_le_mul_right _ (?_ : _ ≤ remaining / fs.blockSize)) (Nat.div_mul_le_self ..)
    omega
  · rw [hnew]
    exact hall.trans hwrite
  · rw [← hall.extended.layout.readOnly]
    exact hro

theorem writePartial_ends (h : fs.Sound P) (hc : fs.Consistent) (hr : fs.inodeCache n = some r)
    (hmaps : r.mapsBlocks fs.sectors = true) {off remaining : Nat} (hoff : off < fs.blockSize) (hrem : 0 < remaining)
    (hT : ∀ i < remaining, off + i < fs.blockSize → T (lb % 2 ^ 32 * fs.blockSize + (off + i))) :
    Ends (Advanced P n remaining T fs) (Broken P n T fs) (writePartial n lb off buf remaining) fs := by
  have hpos := blockSize_pos fs
  refine .congr (get_bind ..) (((allocateBlockForOffset_ends h hc hr hmaps (lb % 2 ^ 32) true).imp (fun _ _ _ hb => hb)
    fun _ _ he => he.broken h hc).bind ?_)
  rintro ⟨b, k₁⟩ fs₁ ⟨hb, hs⟩
  dsimp only at hb hs ⊢
  have htouch : Touches P n k₁ 0 T fs fs₁ := hb.touches hs (.inl rfl)
  have hbs := hb.grown.layout.blockSize
  have hnode := hb.blockAt_self
  have hdata := hb.sound.blockAt_data (n := n) (q := lb % 2 ^ 32) (by rw [hnode]; exact hb.ne_zero)
  rw [hnode] at hdata
  have hlt := (hb.sound.lt hdata).1
  refine .step (readFsBlock_eq hlt) ?_
  cases hro : fs.readOnly with
  | true =>
    have hwrite : ∀ block, writeFsBlock b block fs₁ = .error (.err .readOnly) fs₁ := fun block => by
      rw [writeFsBlock, get_bind, if_pos (hb.grown.layout.readOnly.trans hro)]
      rfl
    exact .error (bind_error (hwrite _))
      ((Refused.broken ⟨rfl, cause_of_ne .readOnly (by decide) fs₁⟩ htouch.sound htouch.spent.consistent).after htouch)
  | false =>
    refine .step (writeFsBlock_eq (hb.grown.layout.readOnly.trans hro) hlt _) ?_
    obtain ⟨hsound, hext, hat, hkeep⟩ := hb.sound.writeBlocks (n := n) (Q := fun q => q = lb % 2 ^ 32)
      (sameLayout_setDisk fs₁ b (blit (fs₁.disk b) off (min remaining (fs.blockSize - off)) buf)) rfl
      (fun c hc => disk_setDisk_of_ne (fun heq => hc _ rfl (hnode.trans heq.symm)) _)
      (fun q hq => by rw [hq, hnode]; exact hb.ne_zero)
    have hwrite : Touches P n 0 0 T fs₁
        (fs₁.setDisk b (blit (fs₁.disk b) off (min remaining (fs.blockSize - off)) buf)) := by
      refine ⟨hsound, hext, spent_setDisk hs.consistent hdata.not_bitmap _, fun j hj => ?_⟩
      unfold Ext2Fs.content
      rw [hext.layout.blockSize]
      by_cases hq : j / fs₁.blockSize = lb % 2 ^ 32
      · rw [hq, blockData_of_ne (by rw [hat, hnode]; exact hb.ne_zero), hat, hnode, disk_setDisk_self,
          blockData_of_ne (by rw [hnode]; exact hb.ne_zero), hnode, blit_of_outside]
        have hdm := Nat.div_add_mod' j fs₁.blockSize
        by_contra hin
        have hbyte := hT (j % fs₁.blockSize - off) (by omega) (by omega)
        rw [show lb % 2 ^ 32 * fs.blockSize + (off + (j % fs₁.blockSize - off)) = j by
          rw [hq, hbs] at hdm
          rw [hbs] at hin ⊢
          omega] at hbyte
        exact hj hbyte
      · rw [hkeep _ hq]
    exact .ok rfl ⟨by dsimp only; omega, Nat.min_le_left .., htouch.trans hwrite, hro⟩

/-- The place of a byte: the index of its block wraps around. -/
theorem wrapped_byte (bs a c : Nat) (hc : c < bs) : a % 2 ^ 32 * bs + c = (a * bs + c) % (2 ^ 32 * bs) := by
  obtain ⟨hdiv, hmod⟩ := mul_add_div_mod (i := a) hc
  rw [Nat.mul_comm (2 ^ 32) bs, Nat.mod_mul, hdiv, hmod]
  ring

theorem writeChunk_ends (h : fs.Sound P) (hc : fs.Consistent) (hr : fs.inodeCache n = some r)
    (hmaps : r.mapsBlocks fs.sectors = true) (offset remaining : Nat) (buf : Bytes) (hrem : 0 < remaining)
    (hT : ∀ i < remaining, T ((offset + i) % (2 ^ 32 * fs.blockSize))) :
    Ends (Advanced P n remaining T fs) (Broken P n T fs) (writeChunk n offset buf remaining) fs := by
  have hpos := blockSize_pos fs
  have hdm := Nat.div_add_mod' offset fs.blockSize
  have hmod := Nat.mod_lt offset hpos
  refine .congr (get_bind ..) ?_
  by_cases hfull : offset % fs.blockSize = 0 ∧ remaining ≥ fs.blockSize
  · rw [if_pos hfull]
    refine writeBulk_ends h hc hr hmaps hfull.2 fun i hi j hj => ?_
    have hin : i * fs.blockSize + j % fs.blockSize < remaining :=
      Nat.lt_of_lt_of_le (mul_add_lt_mul hi (Nat.mod_lt j hpos)) (Nat.div_mul_le_self ..)
    have hbyte := hT _ hin
    rwa [show offset + (i * fs.blockSize + j % fs.blockSize) =
      (offset / fs.blockSize + i) * fs.blockSize + j % fs.blockSize by rw [Nat.add_mul]; omega,
      ← wrapped_byte _ _ _ (Nat.mod_lt j hpos), ← hj, Nat.div_add_mod'] at hbyte
  · rw [if_neg hfull]
    refine writePartial_ends h hc hr hmaps hmod hrem fun i hi hlt => ?_
    have hbyte := hT i hi
    rwa [show offset + i = offset / fs.blockSize * fs.blockSize + (offset % fs.blockSize + i) by omega,
      ← wrapped_byte _ _ _ hlt] at hbyte

/-- The bytes that a write of `len` bytes at `offset` is about. -/
def Covered (bs offset len j : Nat) : Prop := ∃ i < len, j = (offset + i) % (2 ^ 32 * bs)

/-- Offsets wrap around after a multiple of the range of the block indices. -/
theorem wrap_dvd (h : fs.superBlock.Accepted) : 2 ^ 32 * fs.blockSize ∣ 2 ^ 64 := by
  have hlog := h.logBlockSize
  show 2 ^ 32 * (1024 <<< fs.superBlock.logBlockSize) ∣ 2 ^ 64
  rw [Nat.shiftLeft_eq, show 1024 = 2 ^ 10 from rfl, ← Nat.pow_add, ← Nat.pow_add]
  exact Nat.pow_dvd_pow 2 (by omega)

/-- **The loop.** -/
theorem writeLoop_ends {offset len : Nat} (fuel done new : Nat) (h : fs.Sound P) (hc : fs.Consistent)
    (hr : fs.inodeCache n = some r) (hmaps : r.mapsBlocks fs.sectors = true) (hfuel : len - done ≤ fuel) :
    Ends (fun total fs' => ∃ k, Touches P n k 0 (Covered fs.blockSize offset len) fs fs' ∧ total = new + k ∧
        (done < len → fs.readOnly = false))
      (Broken P n (Covered fs.blockSize offset len) fs) (writeLoop n offset buf len fuel done new) fs := by
  induction fuel generalizing fs done new r with
  | zero => exact .ok rfl ⟨0, .refl h hc, rfl, fun hlt => by omega⟩
  | succ fuel ih =>
    rw [writeLoop]
    by_cases hle : len ≤ done
    · rw [if_pos hle]
      exact .ok rfl ⟨0, .refl h hc, rfl, fun hlt => by omega⟩
    rw [if_neg hle]
    have hchunk := writeChunk_ends (T := Covered fs.blockSize offset len) h hc hr hmaps ((offset + done) % 2 ^ 64)
      (len - done) (dropBytes buf done) (by omega) fun i hi => by
        refine ⟨done + i, by omega, ?_⟩
        rw [← Nat.add_assoc, Nat.add_mod, Nat.mod_mod_of_dvd _ (wrap_dvd h.accepted), ← Nat.add_mod]
    refine hchunk.bind ?_
    rintro ⟨c, k⟩ fs₁ hadv
    have htouch := hadv.touches
    have hpos := hadv.pos
    dsimp only at htouch hpos ⊢
    obtain ⟨r₁, hr₁, -, hmaps₁⟩ := htouch.extended.cached hr hmaps
    have hrest := ih (done + c) (new + k) htouch.sound htouch.spent.consistent hr₁ hmaps₁ (by omega)
    rw [htouch.extended.layout.blockSize] at hrest
    refine hrest.imp (fun total fs' _ hadv' => ?_) fun _ _ he => he.after htouch
    obtain ⟨k', htouch', htotal, -⟩ := hadv'
    exact ⟨k + k', htouch.trans htouch', by omega, fun _ => hadv.writable⟩

theorem setSize_eq (hr : fs.inodeCache n = some r) (s : Nat) : ∃ r', setSize n s fs = .ok ⟨⟩ (fs.setInode n (some r')) :=
  ⟨_, modifyRaw_eq hr _⟩

/-- The inode is written back. -/
theorem writeInodeToDisk_ends (hp : fs.Placed) (hn : fs.IsSlot n) (hc : fs.Consistent) (hr : fs.inodeCache n = some r)
    (hro : fs.readOnly = false) : ∃ fs', writeInodeToDisk n fs = .ok ⟨⟩ fs' ∧ Spent 0 fs fs' := by
  obtain ⟨b, off, hplace, htable, hoff⟩ := tablePlace_spec hp hn
  have hmin := hp.accepted.inodeSize.1
  obtain ⟨hlt, hbit⟩ := hp.tables b htable
  exact ⟨_, writeInodeToDisk_at hplace hlt (by omega) hro hr, spent_setDisk hc hbit _⟩

/-- Fields of the inode are set, and it is written back. -/
theorem updateInode_ends {α : Type} (hp : fs.Placed) (hn : fs.IsSlot n) (hc : fs.Consistent)
    (hr : fs.inodeCache n = some r) (hro : fs.readOnly = false) (f : RawInode → RawInode) (a : α)
    (R : Fault → Ext2Fs → Prop) :
    Ends (fun _ fs' => fs'.Consistent) R (do
      modifyRaw n f
      writeInodeToDisk n
      return a) fs := by
  have hl := sameLayout_setInode fs n (some (f r))
  obtain ⟨fs', hwrite, hspent⟩ := writeInodeToDisk_ends (hl.placed hp) (hl.isSlot ▸ hn) (spent_setInode hc n _).consistent
    (Function.update_self ..) hro
  exact .step (modifyRaw_eq hr f) (.step hwrite (.ok rfl hspent.consistent))

/-- **`write_at_locked`**, whether it succeeds or not. -/
theorem writeAtLocked_ends (h : fs.Sound P) (hc : fs.Consistent) (hr : fs.inodeCache n = some r) (hkind : r.HoldsData)
    (offset len : Nat) (buf : Bytes) :
    Ends (fun _ fs' => fs'.Consistent ∧ (0 < len → fs.readOnly = false)) (Broken P n (Covered fs.blockSize offset len) fs)
      (writeAtLocked n offset buf len) fs := by
  rw [writeAtLocked]
  by_cases h0 : len = 0
  · rw [if_pos h0]
    exact .ok rfl ⟨hc, fun hpos => absurd h0 (Nat.ne_of_gt hpos)⟩
  rw [if_neg h0]
  refine (writeLoop_ends len 0 0 h hc hr (hkind.mapsBlocks _) (Nat.le_refl _)).bind ?_
  rintro new fs₁ ⟨k, htouch, -, hro⟩
  obtain ⟨r₁, hr₁, hfields⟩ := htouch.extended.fields r hr
  have hro₁ : fs₁.readOnly = false := htouch.extended.layout.readOnly.trans (hro (by omega))
  have hn₁ := htouch.sound.cached n r₁ hr₁
  have hsectors : ∀ fs : Ext2Fs, sectorsPerBlock fs = .ok (fs.blockSize / 512) fs := fun _ => rfl
  refine .step (size_eq hr₁) (Ends.imp (Q := fun _ fs' => fs'.Consistent) ?_ (fun _ _ _ hc => ⟨hc, hro⟩) fun _ _ he => he)
  dsimp only
  split
  · obtain ⟨r₂, hset⟩ := setSize_eq hr₁ ((offset + len) % 2 ^ 64)
    have hl := sameLayout_setInode fs₁ n (some r₂)
    exact .step hset (.step (hsectors _) (updateInode_ends (hl.placed htouch.sound.toPlaced) (hl.isSlot ▸ hn₁)
      (spent_setInode htouch.spent.consistent n _).consistent (Function.update_self ..) hro₁ _ _ _))
  · exact .step (hsectors _) (updateInode_ends htouch.sound.toPlaced hn₁ htouch.spent.consistent hr₁ hro₁ _ _ _)

end Writing

end Koros.Ext2
