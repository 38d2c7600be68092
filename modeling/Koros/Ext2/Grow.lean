import Koros.Ext2.Edits

/-!
# Growing a block tree

`resolve_block_id` and `allocate_block_for_offset` of `kor-ext2/src/inode.rs`. A logical block has one spot in the trees of
its inode (`spotOf`); resolving reads the node there (`resolveBlockId_ok`), and allocating puts a node there, with the
indirect blocks above it that are missing (`allocateBlockForOffset_ok`). The new data block is taken first and held back until
it is linked.
-/
set_option autoImplicit false

namespace Koros.Ext2

open Koros.Lib Xattr
open Pointers (Points below)

/-- The spot of a logical block of inode `n`, with `p` pointers in a block. -/
def spotOf (p n logicalBlock : Nat) : (Nat × Nat) × List Nat :=
  let indirectLimit := DIRECT_BLOCKS + p
  let doubleLimit := indirectLimit + p * p
  if logicalBlock < DIRECT_BLOCKS then ((n, logicalBlock), [])
  else if logicalBlock < indirectLimit then ((n, 12), [logicalBlock - DIRECT_BLOCKS])
  else if logicalBlock < doubleLimit then
    let remaining := logicalBlock - indirectLimit
    ((n, 13), [remaining / p, remaining % p])
  else
    let remaining := logicalBlock - doubleLimit
    ((n, 14), [remaining / (p * p), remaining / p % p, remaining % p])

/-! ## Resolving -/

section Resolve

variable {fs fs' : Ext2Fs} {n : Nat} {r : RawInode} {α : Type}

theorem index_lt {fs : Ext2Fs} {i : Nat} : ¬ i * 4 + 4 > fs.blockSize ↔ i < fs.blockSize / 4 := by
  rw [Nat.lt_div_iff_mul_lt (by omega)]
  omega

theorem readIndirectEntry_bind_ok {b i : Nat} {f : Nat → FsM α} {a : α}
    (h : (readIndirectEntry b i >>= f) fs = .ok a fs') :
    i < fs.blockSize / 4 ∧ f (fs.pointers.child b i) fs = .ok a fs' := by
  rw [readIndirectEntry, bind_assoc, get_bind, bind_assoc] at h
  obtain ⟨-, h⟩ := readFsBlock_bind_ok h
  by_cases hi : i * 4 + 4 > fs.blockSize
  · rw [if_pos hi] at h
    obtain ⟨v, fs₁, hfail, -⟩ := bind_eq_ok h
    exact absurd hfail fail_ne_ok
  · rw [if_neg hi, pure_bind] at h
    refine ⟨index_lt.1 hi, ?_⟩
    rw [show fs.pointers.child b i = leNat (fs.disk b) (i * 4) 4 from if_pos (index_lt.1 hi)]
    exact h

theorem readIndirectEntry_ok {b i v : Nat} (h : readIndirectEntry b i fs = .ok v fs') :
    i < fs.blockSize / 4 ∧ v = fs.pointers.child b i ∧ fs' = fs := by
  rw [← bind_pure (readIndirectEntry b i)] at h
  obtain ⟨hi, h⟩ := readIndirectEntry_bind_ok h
  exact ⟨hi, pure_eq_ok h⟩

theorem ptrsPerBlock_bind (f : Nat → FsM α) (fs : Ext2Fs) : (ptrsPerBlock >>= f) fs = f (fs.blockSize / 4) fs := rfl

/-- **Resolving** a logical block reads the node at its spot. -/
theorem resolveBlockId_ok (hs : fs.IsSlot n) (hr : fs.inodeCache n = some r) (hmaps : r.mapsBlocks fs.sectors = true)
    {logicalBlock b : Nat} (hrun : resolveBlockId n logicalBlock fs = .ok b fs') :
    b = fs.pointers.node (spotOf (fs.blockSize / 4) n logicalBlock) ∧ fs' = fs := by
  have hroot : ∀ k, k < 15 → fs.pointers.root (n, k) = r.block k := fun k => root_of_cached hr hs hmaps
  rw [resolveBlockId, ptrsPerBlock_bind] at hrun
  obtain ⟨r', hr', hrun⟩ := raw_bind_ok hrun
  rw [hr, Option.some.injEq] at hr'
  subst hr'
  unfold spotOf
  dsimp only at hrun ⊢
  by_cases h₁ : logicalBlock < DIRECT_BLOCKS
  · rw [if_pos h₁] at hrun ⊢
    rw [Pointers.node_root, hroot _ (Nat.lt_trans h₁ (by decide))]
    exact pure_eq_ok hrun
  rw [if_neg h₁] at hrun ⊢
  by_cases h₂ : logicalBlock < DIRECT_BLOCKS + fs.blockSize / 4
  · rw [if_pos h₂] at hrun ⊢
    simp only [Pointers.node, walk, hroot 12 (by omega)]
    by_cases h0 : r.block 12 = 0
    · rw [if_pos h0] at hrun ⊢
      exact pure_eq_ok hrun
    · rw [if_neg h0] at hrun ⊢
      exact (readIndirectEntry_ok hrun).2
  rw [if_neg h₂] at hrun ⊢
  by_cases h₃ : logicalBlock < DIRECT_BLOCKS + fs.blockSize / 4 + fs.blockSize / 4 * (fs.blockSize / 4)
  · rw [if_pos h₃] at hrun ⊢
    simp only [Pointers.node, walk, hroot 13 (by omega)]
    by_cases h0 : r.block 13 = 0
    · rw [if_pos h0] at hrun ⊢
      exact pure_eq_ok hrun
    rw [if_neg h0] at hrun ⊢
    obtain ⟨-, hrun⟩ := readIndirectEntry_bind_ok hrun
    split
    · rename_i h0'
      rw [if_pos h0'] at hrun
      exact pure_eq_ok hrun
    · rename_i h0'
      rw [if_neg h0'] at hrun
      exact (readIndirectEntry_ok hrun).2
  rw [if_neg h₃] at hrun ⊢
  simp only [Pointers.node, walk, hroot 14 (by omega)]
  by_cases h0 : r.block 14 = 0
  · rw [if_pos h0] at hrun ⊢
    exact pure_eq_ok hrun
  rw [if_neg h0] at hrun ⊢
  obtain ⟨-, hrun⟩ := readIndirectEntry_bind_ok hrun
  split
  · rename_i h0'
    rw [if_pos h0'] at hrun
    exact pure_eq_ok hrun
  rename_i h0'
  rw [if_neg h0'] at hrun
  obtain ⟨-, hrun⟩ := readIndirectEntry_bind_ok hrun
  split
  · rename_i h0''
    rw [if_pos h0''] at hrun
    exact pure_eq_ok hrun
  · rename_i h0''
    rw [if_neg h0''] at hrun
    exact (readIndirectEntry_ok hrun).2

end Resolve

/-! ## What growth keeps -/

/-- Inode `n` has `k` more blocks in its trees, and what was there is where it was. -/
structure Extended (n k : Nat) (fs fs' : Ext2Fs) : Prop extends Step n fs fs' where
  keep : ∀ x, fs.pointers.Inside x → fs.pointers.node x ≠ 0 → fs'.pointers.node x = fs.pointers.node x
  fields : ∀ r, fs.inodeCache n = some r → ∃ r', fs'.inodeCache n = some r' ∧ RawInode.SameFields r r'
  size : fs'.treeSize n = fs.treeSize n + k
  ownAttrs : fs'.acl n = fs.acl n ∧ (fs.acl n ≠ 0 → fs'.disk (fs.acl n) = fs.disk (fs.acl n))

/-- No data block has changed. -/
structure Grown (n k : Nat) (fs fs' : Ext2Fs) : Prop extends Extended n k fs fs' where
  data : ∀ x, x.2.length = fs.pointers.depth x.1 → fs.pointers.node x ≠ 0 →
    fs'.disk (fs.pointers.node x) = fs.disk (fs.pointers.node x)

namespace Extended

variable {fs fs' fs'' : Ext2Fs} {n k k' : Nat}

theorem refl (n : Nat) (fs : Ext2Fs) : Extended n 0 fs fs :=
  ⟨.refl n fs, fun _ _ _ => rfl, fun r hr => ⟨r, hr, .refl r⟩, rfl, rfl, fun _ => rfl⟩

theorem trans (h : Extended n k fs fs') (h' : Extended n k' fs' fs'') : Extended n (k + k') fs fs'' where
  toStep := h.toStep.trans h'.toStep
  keep := fun x hx hne => by
    have hnode := h.keep x hx hne
    rw [← hnode] at hne ⊢
    exact h'.keep x hx hne
  fields := fun r hr => by
    obtain ⟨r₁, hr₁, h₁⟩ := h.fields r hr
    obtain ⟨r₂, hr₂, h₂⟩ := h'.fields r₁ hr₁
    exact ⟨r₂, hr₂, h₁.trans h₂⟩
  size := by rw [h'.size, h.size, Nat.add_assoc]
  ownAttrs := by
    obtain ⟨hacl, hdisk⟩ := h.ownAttrs
    obtain ⟨hacl', hdisk'⟩ := h'.ownAttrs
    rw [hacl] at hacl' hdisk'
    exact ⟨hacl', fun hne => (hdisk' hne).trans (hdisk hne)⟩

/-- The inode keeps its kind. -/
theorem cached (h : Extended n k fs fs') {r : RawInode} (hr : fs.inodeCache n = some r)
    (hmaps : r.mapsBlocks fs.sectors = true) :
    ∃ r', fs'.inodeCache n = some r' ∧ RawInode.SameFields r r' ∧ r'.mapsBlocks fs'.sectors = true := by
  obtain ⟨r', hr', hsame⟩ := h.fields r hr
  exact ⟨r', hr', hsame, by rw [hsame.mapsBlocks, h.layout.sectors, hmaps]⟩

end Extended

namespace Grown

variable {fs fs' fs'' : Ext2Fs} {n k k' : Nat}

theorem refl (n : Nat) (fs : Ext2Fs) : Grown n 0 fs fs := ⟨.refl n fs, fun _ _ _ => rfl⟩

theorem trans (h : Grown n k fs fs') (h' : Grown n k' fs' fs'') : Grown n (k + k') fs fs'' where
  toExtended := h.toExtended.trans h'.toExtended
  data := fun x hx hne => by
    have hnode := h.keep x (Nat.le_of_eq hx) hne
    have hdata := h'.data x hx (by rw [hnode]; exact hne)
    rw [hnode] at hdata
    exact hdata.trans (h.data x hx hne)

end Grown

section Take

variable {fs fs' : Ext2Fs} {P P' : Nat → Prop} {n b : Nat}

theorem Ext2Fs.Sound.congr (h : fs.Sound P) (hP : ∀ c, P c ↔ P' c) : fs.Sound P' := by
  have : P = P' := funext fun c => propext (hP c)
  rw [← this]
  exact h

/-- Block `b` was taken and is held back, beside `P`. -/
structure Drawn (P : Nat → Prop) (n b : Nat) (fs fs' : Ext2Fs) : Prop where
  sound : fs'.Sound (fun c => P c ∨ c = b)
  fresh : ¬ P b
  map : SameMap fs fs'
  cache : fs'.inodeCache = fs.inodeCache
  grown : Grown n 0 fs fs'
  held : ∀ c, P c → fs'.disk c = fs.disk c

theorem drawn_of_taken (h : fs.Sound P) (hb : Taken .block fs fs' b) (n : Nat) : Drawn P n b fs fs' := by
  obtain ⟨hsound, hmap, -, -, hfresh, hstep⟩ := h.take hb
  obtain ⟨hin, -, rfl⟩ := hb
  refine ⟨hsound, hfresh, hmap, (mark_frame fs .block b true).2.2, ⟨⟨hstep n, fun x hx _ => hmap.node hx, fun r hr => ?_, ?_,
    by rw [hmap.acl], fun hne => disk_mark true (h.attr n hne).1.not_bitmap⟩, fun x hx hne => ?_⟩,
    fun c hc => disk_mark true (h.pending c hc).1.not_bitmap⟩
  · exact ⟨r, by rw [(mark_frame fs .block b true).2.2]; exact hr, .refl r⟩
  · rw [hmap.treeSize, Nat.add_zero]
  · exact disk_mark true (h.tree x (Nat.le_of_eq hx) hne).not_bitmap

/-- A block that is held back is written. -/
theorem Drawn.write (hd : Drawn P n b fs fs') (buf : Bytes) : Drawn P n b fs (fs'.setDisk b buf) := by
  have hb : (fun c => P c ∨ c = b) b := .inr rfl
  obtain ⟨hdata, hno⟩ := hd.sound.pending b hb
  have hb0 := hdata.ne_zero
  have hnode : ∀ x, fs'.pointers.Inside x → fs'.pointers.node x ≠ b := fun x hx heq => hno ⟨hb0, .inl ⟨x, hx, heq⟩⟩
  have hfree : Free fs' (fun c => c = b) :=
    ⟨fun c hc => hc ▸ hdata, fun x hx => hnode x hx.inside, fun m _ heq => hno ⟨hb0, .inr ⟨m, heq⟩⟩⟩
  have hl := sameLayout_setDisk fs' b buf
  have hdisk : ∀ c, ¬ c = b → (fs'.setDisk b buf).disk c = fs'.disk c := fun c hc => disk_setDisk_of_ne hc buf
  have hmap := sameMap_of_data hd.sound hl rfl hdisk hfree
  have hgrown : Grown n 0 fs' (fs'.setDisk b buf) := by
    refine ⟨⟨step_write hd.sound hl rfl hdisk hfree fun x _ hx => hnode x hx, fun x hx _ => hmap.node hx,
      fun r hr => ⟨r, hr, .refl r⟩, ?_, by rw [hmap.acl], fun hne => hdisk _ (hfree.attr n hne)⟩,
      fun x hx _ => hdisk _ (hnode x (Nat.le_of_eq hx))⟩
    rw [hmap.treeSize, Nat.add_zero]
  refine ⟨hd.sound.write hl rfl hdisk hfree, hd.fresh, ?_, hd.cache, hd.grown.trans hgrown, fun c hc => ?_⟩
  · refine ⟨hd.map.layout.trans hl, fun m hm k => ?_, fun m hm => ?_, fun x hx => ?_⟩
    · have := hmap.root m (hd.map.layout.isSlot ▸ hm) k
      rw [hd.map.layout.sectors] at this
      exact this.trans (hd.map.root m hm k)
    · exact (hmap.fileAcl m (hd.map.layout.isSlot ▸ hm)).trans (hd.map.fileAcl m hm)
    · have hne : fs.pointers.node x ≠ b := by
        rw [← hd.map.node hx.inside]
        exact hnode x hx.inside
      exact (hdisk _ hne).trans (hd.map.inner x hx)
  · have hcb : c ≠ b := by
      rintro rfl
      exact hd.fresh hc
    exact (hdisk c hcb).trans (hd.held c hc)

/-- A block of zeros has no pointers. -/
theorem child_of_zero (hz : fs.disk b = zeroBlock) (i : Nat) : fs.pointers.child b i = 0 := by
  show (if _ then leNat (fs.disk b) _ _ else 0) = 0
  rw [hz]
  split
  · exact leNat_zero
  · rfl

theorem blockGroup_bind {α : Type} (n : Nat) (f : Nat → FsM α) (fs : Ext2Fs) : ∃ g, (blockGroup n >>= f) fs = f g fs :=
  ⟨_, rfl⟩

/-- `alloc_and_zero_block`. -/
theorem allocAndZeroBlock_bind_ok (h : fs.Sound P) {α : Type} {f : Nat → FsM α} {a : α}
    (hrun : (allocAndZeroBlock n >>= f) fs = .ok a fs') :
    ∃ b fs₁, Drawn P n b fs fs₁ ∧ fs₁.disk b = zeroBlock ∧ f b fs₁ = .ok a fs' := by
  rw [allocAndZeroBlock, bind_assoc] at hrun
  obtain ⟨g, hg⟩ := blockGroup_bind n (fun x => (do
    let block ← allocBlockGoal x
    onError (writeFsBlock block zeroBlock) (freeBlock block)
    return block) >>= f) fs
  rw [hg, bind_assoc] at hrun
  obtain ⟨b, fs₁, halloc, hrun⟩ := bind_eq_ok hrun
  have hd := drawn_of_taken h (allocBlockGoal_ok h.geometry halloc) n
  rw [bind_assoc] at hrun
  obtain ⟨u, fs₂, hzero, hrun⟩ := bind_eq_ok hrun
  obtain ⟨-, -, rfl⟩ := writeFsBlock_ok (onError_ok hzero)
  exact ⟨b, _, hd.write zeroBlock, disk_setDisk_self .., hrun⟩

end Take

/-! ## Linking -/

section Link

variable {fs fs' : Ext2Fs} {P : Nat → Prop} {n b k v : Nat} {r : RawInode} {x y : (Nat × Nat) × List Nat}

/-- Only pointers of the trees lead to a node. -/
theorem bounds_of_node : ∀ x, fs.pointers.node x ≠ 0 →
    fs.IsSlot x.1.1 ∧ x.1.2 < 15 ∧ ∀ i ∈ x.2, i < fs.blockSize / 4 := by
  refine Pointers.spot_induction (fun l hne => ?_) fun x i ih hne => ?_
  · rw [Pointers.node_root] at hne
    have hs : fs.IsSlot l.1 := by
      by_contra hs
      exact hne (if_neg hs)
    have hroot : (fs.inode l.1).root fs.sectors l.2 ≠ 0 := by
      rw [← show fs.pointers.root l = (fs.inode l.1).root fs.sectors l.2 from if_pos hs]
      exact hne
    refine ⟨hs, ?_, by simp⟩
    by_contra hk
    exact hroot (if_neg fun hc => hk hc.1)
  · rw [Pointers.node_below] at hne
    by_cases h0 : fs.pointers.node x = 0
    · rw [if_pos h0] at hne
      exact absurd rfl hne
    rw [if_neg h0] at hne
    obtain ⟨hs, hk, hp⟩ := ih h0
    refine ⟨hs, hk, fun j hj => ?_⟩
    rcases List.mem_append.1 hj with hj | hj
    · exact hp j hj
    · rw [List.mem_singleton] at hj
      subst hj
      by_contra hlt
      exact hne (if_neg hlt)

/-- Block `v` hangs at spot `y` of inode `n`. -/
structure Linked (P : Nat → Prop) (n v : Nat) (y : (Nat × Nat) × List Nat) (fs fs' : Ext2Fs) : Prop where
  sound : fs'.Sound P
  grown : Grown n 1 fs fs'
  node : ∀ x, fs.pointers.Inside x → fs'.pointers.node x = if x = y then v else fs.pointers.node x
  held : ∀ c, P c ∨ c = v → fs'.disk c = fs.disk c

theorem linked_of_relinked (h : fs.Sound (fun c => P c ∨ c = v)) (hfresh : ¬ P v) (hold : fs.pointers.node y = 0)
    (hr : Relinked fs fs' y v) (hstep : Step y.1.1 fs fs') (hk : y.1.2 < 15) (hi : ∀ i ∈ y.2, i < fs.blockSize / 4)
    (hdata : ∀ x, x.2.length = fs.pointers.depth x.1 → fs.pointers.node x ≠ 0 →
      fs'.disk (fs.pointers.node x) = fs.disk (fs.pointers.node x))
    (hfields : ∀ r, fs.inodeCache y.1.1 = some r → ∃ r', fs'.inodeCache y.1.1 = some r' ∧ RawInode.SameFields r r')
    (hheld : ∀ c, P c ∨ c = v → fs'.disk c = fs.disk c) : Linked P y.1.1 v y fs fs' := by
  have hv0 : v ≠ 0 := (h.pending v (.inr rfl)).1.ne_zero
  refine ⟨(hr.link h hold (.inr rfl)).congr fun c => ?_, ⟨⟨hstep, fun x hx hne => ?_, hfields, ?_,
    by rw [hr.acl], hr.attr _⟩, hdata⟩, fun x hx => hr.node hx, hheld⟩
  · constructor
    · rintro ⟨hc | hc, hcv⟩
      · exact hc
      · exact absurd hc hcv
    · intro hc
      refine ⟨.inl hc, ?_⟩
      rintro rfl
      exact hfresh hc
  · rw [hr.node hx, if_neg]
    rintro rfl
    exact hne hold
  · have hsize := hr.treeSize hi hk
    rw [if_pos hold, if_neg hv0] at hsize
    exact hsize

/-- A word of `i_block` is set to a block that was held back. -/
theorem linked_setRoot (h : fs.Sound (fun c => P c ∨ c = v)) (hfresh : ¬ P v) (hr : fs.inodeCache n = some r)
    (hmaps : r.mapsBlocks fs.sectors = true) (hk : k < 15) (hold : r.block k = 0)
    (hleaf : 12 ≤ k → ∀ i, fs.pointers.child v i = 0) :
    Linked P n v ((n, k), []) fs (fs.setInode n (some (r.setBlock k v))) := by
  have hs := h.cached n r hr
  have hrel := relinked_setRoot h hr hmaps hk (h.lt (h.pending v (.inr rfl)).1).2 (fun _ hne => absurd hold hne)
    fun _ hk => hleaf hk
  refine linked_of_relinked (y := ((n, k), [])) h hfresh ?_ hrel (step_setInode ..) hk (by simp) (fun _ _ _ => rfl) ?_ fun _ _ => rfl
  · rw [Pointers.node_root, root_of_cached hr hs hmaps hk]
    exact hold
  · intro r' hr'
    rw [show fs.inodeCache n = some r' from hr', Option.some.injEq] at hr
    subst hr
    exact ⟨_, Function.update_self .., RawInode.sameFields_setBlock hk⟩

/-- A word of an indirect block is set to a block that was held back. -/
theorem linked_setChild (h : fs.Sound (fun c => P c ∨ c = v)) (hfresh : ¬ P v) (hx : fs.pointers.Inner x) {i : Nat}
    (hi : i < fs.blockSize / 4) (hold : fs.pointers.node (below x i) = 0)
    (hleaf : x.2.length + 1 < fs.pointers.depth x.1 → ∀ j, fs.pointers.child v j = 0) :
    Linked P x.1.1 v (below x i) fs (fs.setDisk (fs.pointers.node x) (putLe (fs.disk (fs.pointers.node x)) (i * 4) 4 v)) := by
  obtain ⟨hdata, hno⟩ := h.pending v (.inr rfl)
  obtain ⟨-, hk, hpath⟩ := bounds_of_node x hx.2
  have hheld : ∀ c, P c ∨ c = v → c ≠ fs.pointers.node x := by
    rintro c hc rfl
    exact (h.pending _ hc).2 ⟨hx.2, .inl ⟨x, hx.inside, rfl⟩⟩
  have hrel := relinked_setChild h hx hi (h.lt hdata).2 (hheld v (.inr rfl)) (fun hin => absurd hold hin.2) fun _ => hleaf
  refine linked_of_relinked (y := below x i) h hfresh hold hrel (step_setChild h hx hrel) hk ?_ (fun z hz hne => ?_)
    (fun r hr => ⟨r, hr, .refl r⟩) fun c hc => disk_setDisk_of_ne (hheld c hc) _
  · intro j hj
    rcases List.mem_append.1 hj with hj | hj
    · exact hpath j hj
    · rw [List.mem_singleton] at hj
      rw [hj]
      exact hi
  · refine disk_setDisk_of_ne (fun heq => ?_) _
    -- a block at the lowest level has no pointers, and no other spot
    have := h.unique z x (Nat.le_of_eq hz) hx.inside hne heq
    subst this
    exact absurd hx.1 (by omega)

end Link

/-! ## Going down -/

section Down

variable {fs fs' : Ext2Fs} {P : Nat → Prop} {n : Nat} {r : RawInode} {x : (Nat × Nat) × List Nat} {α : Type}

/-- There is an indirect block `c` at spot `x`, if need be a new one. -/
structure Down (P : Nat → Prop) (n k c : Nat) (x : (Nat × Nat) × List Nat) (fs fs' : Ext2Fs) : Prop where
  sound : fs'.Sound P
  grown : Grown n k fs fs'
  node : fs'.pointers.node x = c
  inner : fs'.pointers.Inner x
  others : ∀ z, fs.pointers.Inside z → z ≠ x → fs'.pointers.node z = fs.pointers.node z
  held : ∀ c, P c → fs'.disk c = fs.disk c

/-- A new indirect block, taken and linked. -/
theorem Drawn.down {c : Nat} {fs₁ : Ext2Fs} (hd : Drawn P n c fs fs₁) (hlink : Linked P n c x fs₁ fs')
    (hx : x.2.length < fs.pointers.depth x.1) : Down P n 1 c x fs fs' := by
  have hin : fs.pointers.Inside x := Nat.le_of_lt hx
  have hnode : fs'.pointers.node x = c := by rw [hlink.node x hin, if_pos rfl]
  refine ⟨hlink.sound, Nat.zero_add 1 ▸ hd.grown.trans hlink.grown, hnode, ⟨hx, ?_⟩, fun z hz hne => ?_, fun a ha => ?_⟩
  · rw [hnode]
    exact (hd.sound.pending c (.inr rfl)).1.ne_zero
  · rw [hlink.node z hz, if_neg hne, hd.map.node hz]
  · exact (hlink.held a (.inl ha)).trans (hd.held a ha)

theorem topIndirect_bind_ok (h : fs.Sound P) (hr : fs.inodeCache n = some r) (hmaps : r.mapsBlocks fs.sectors = true)
    {slot : Nat} (h12 : 12 ≤ slot) (h15 : slot < 15) {f : Nat × Nat → FsM α} {a : α}
    (hrun : (topIndirect n slot >>= f) fs = .ok a fs') :
    ∃ c k fs₁, Down P n k c ((n, slot), []) fs fs₁ ∧ f (c, k) fs₁ = .ok a fs' := by
  have hdepth : ((n, slot), ([] : List Nat)).2.length < fs.pointers.depth (n, slot) := by
    show 0 < slot - 11
    omega
  rw [topIndirect, bind_assoc] at hrun
  obtain ⟨r', hr', hrun⟩ := raw_bind_ok hrun
  rw [hr, Option.some.injEq] at hr'
  subst hr'
  by_cases h0 : r.block slot = 0
  · rw [if_pos h0, bind_assoc] at hrun
    obtain ⟨c, fs₁, hd, hz, hrun⟩ := allocAndZeroBlock_bind_ok h hrun
    rw [bind_assoc] at hrun
    obtain ⟨r₁, hr₁, hrun⟩ := modifyRaw_bind_ok hrun
    rw [hd.cache, hr, Option.some.injEq] at hr₁
    subst hr₁
    have hlink := linked_setRoot hd.sound hd.fresh (by rw [hd.cache]; exact hr) (by rw [hd.map.layout.sectors]; exact hmaps)
      h15 h0 fun _ => child_of_zero hz
    exact ⟨c, 1, _, hd.down hlink hdepth, hrun⟩
  · rw [if_neg h0, pure_bind] at hrun
    refine ⟨_, _, fs, ⟨h, .refl n fs, ?_, ⟨hdepth, ?_⟩, fun _ _ _ => rfl, fun _ _ => rfl⟩, hrun⟩
    · rw [Pointers.node_root, root_of_cached hr (h.cached n r hr) hmaps h15]
    · rw [Pointers.node_root, root_of_cached hr (h.cached n r hr) hmaps h15]
      exact h0

/-- `write_indirect_entry`. -/
theorem writeIndirectEntry_ok {c i v : Nat} {u : PUnit} (hrun : writeIndirectEntry c i v fs = .ok u fs') :
    i < fs.blockSize / 4 ∧ fs' = fs.setDisk c (putLe (fs.disk c) (i * 4) 4 v) := by
  rw [writeIndirectEntry, get_bind] at hrun
  obtain ⟨-, hrun⟩ := readFsBlock_bind_ok hrun
  obtain ⟨hi, hrun⟩ := ite_fail_ok hrun
  exact ⟨index_lt.1 hi, (writeFsBlock_ok hrun).2.2⟩

theorem nextIndirect_bind_ok (h : fs.Sound P) (hx : fs.pointers.Inner x) {i : Nat}
    (hdepth : x.2.length + 1 < fs.pointers.depth x.1) {f : Nat × Nat → FsM α} {a : α}
    (hrun : (nextIndirect x.1.1 (fs.pointers.node x) i >>= f) fs = .ok a fs') :
    ∃ c k fs₁, Down P x.1.1 k c (below x i) fs fs₁ ∧ f (c, k) fs₁ = .ok a fs' := by
  have hlen : (below x i).2.length < fs.pointers.depth (below x i).1 := by
    simpa [below] using hdepth
  rw [nextIndirect, bind_assoc] at hrun
  obtain ⟨hi, hrun⟩ := readIndirectEntry_bind_ok hrun
  rw [← Pointers.node_below_of_ne hx.2] at hrun
  by_cases h0 : fs.pointers.node (below x i) = 0
  · rw [if_pos h0, bind_assoc] at hrun
    obtain ⟨c, fs₁, hd, hz, hrun⟩ := allocAndZeroBlock_bind_ok h hrun
    rw [bind_assoc] at hrun
    obtain ⟨u, fs₂, hwrite, hrun⟩ := bind_eq_ok hrun
    obtain ⟨-, rfl⟩ := writeIndirectEntry_ok hwrite
    have hnode := hd.map.node hx.inside
    have hx₁ : fs₁.pointers.Inner x := ⟨hx.1, by rw [hnode]; exact hx.2⟩
    have hlink := linked_setChild hd.sound hd.fresh hx₁ (by rw [hd.map.layout.blockSize]; exact hi)
      (by rw [hd.map.node (Nat.le_of_lt hlen)]; exact h0) fun _ => child_of_zero hz
    rw [hnode] at hlink
    exact ⟨c, 1, _, hd.down hlink hlen, hrun⟩
  · rw [if_neg h0, pure_bind] at hrun
    exact ⟨_, _, fs, ⟨h, .refl _ fs, rfl, ⟨hlen, h0⟩, fun _ _ _ => rfl, fun _ _ => rfl⟩, hrun⟩

end Down

/-! ## Allocating -/

section Allocate

variable {fs fs' fs'' : Ext2Fs} {P : Nat → Prop} {n k k' : Nat} {r : RawInode} {α : Type}

/-- New indirect blocks were linked, and nothing at the lowest level. -/
structure Branched (P : Nat → Prop) (n k : Nat) (fs fs' : Ext2Fs) : Prop where
  sound : fs'.Sound P
  grown : Grown n k fs fs'
  leaves : ∀ z, z.2.length = fs.pointers.depth z.1 → fs'.pointers.node z = fs.pointers.node z
  held : ∀ c, P c → fs'.disk c = fs.disk c

theorem Branched.trans (h : Branched P n k fs fs') (h' : Branched P n k' fs' fs'') : Branched P n (k + k') fs fs'' where
  sound := h'.sound
  grown := h.grown.trans h'.grown
  leaves := fun z hz => (h'.leaves z hz).trans (h.leaves z hz)
  held := fun c hc => (h'.held c hc).trans (h.held c hc)

theorem Down.branched {c : Nat} {x : (Nat × Nat) × List Nat} (h : Down P n k c x fs fs') : Branched P n k fs fs' where
  sound := h.sound
  grown := h.grown
  leaves := fun z hz => h.others z (Nat.le_of_eq hz) fun heq => by
    have := h.inner.1
    subst heq
    exact absurd this (by rw [hz]; exact Nat.lt_irrefl _)
  held := h.held

/-- There is a block `b` behind a logical block, if need be a new one. -/
structure Backed (P : Nat → Prop) (n logicalBlock k b : Nat) (zeroed : Bool) (fs fs' : Ext2Fs) : Prop where
  sound : fs'.Sound P
  grown : Grown n k fs fs'
  node : fs'.pointers.node (spotOf (fs.blockSize / 4) n logicalBlock) = b
  ne_zero : b ≠ 0
  leaves : ∀ z, z.2.length = fs.pointers.depth z.1 → z ≠ spotOf (fs.blockSize / 4) n logicalBlock →
    fs'.pointers.node z = fs.pointers.node z
  fresh : fs.pointers.node (spotOf (fs.blockSize / 4) n logicalBlock) = 0 → zeroed = true → fs'.disk b = zeroBlock
  held : ∀ c, P c → fs'.disk c = fs.disk c

/-- The new data block is linked at last. -/
theorem Drawn.backed {fs₁ fs₂ : Ext2Fs} {b logicalBlock : Nat} {zeroed : Bool} (hd : Drawn P n b fs fs₁)
    (hzero : zeroed = true → fs₁.disk b = zeroBlock) (hb : Branched (fun c => P c ∨ c = b) n k fs₁ fs₂)
    (hlink : Linked P n b (spotOf (fs.blockSize / 4) n logicalBlock) fs₂ fs')
    (hin : fs.pointers.Inside (spotOf (fs.blockSize / 4) n logicalBlock)) :
    Backed P n logicalBlock (1 + k) b zeroed fs fs' where
  sound := hlink.sound
  grown := by
    have := (hd.grown.trans hb.grown).trans hlink.grown
    rwa [Nat.zero_add, Nat.add_comm] at this
  node := by rw [hlink.node _ hin, if_pos rfl]
  ne_zero := (hd.sound.pending b (.inr rfl)).1.ne_zero
  leaves := fun z hz hne => by
    rw [hlink.node z (Nat.le_of_eq hz), if_neg hne, hb.leaves z hz, hd.map.node (Nat.le_of_eq hz)]
  fresh := fun _ hzeroed => by
    rw [hlink.held b (.inr rfl), hb.held b (.inr rfl)]
    exact hzero hzeroed
  held := fun c hc => by rw [hlink.held c (.inl hc), hb.held c (.inl hc), hd.held c hc]

/-- A new block is cleared if it will not be written as a whole. -/
theorem Drawn.clear_ok {fs₁ : Ext2Fs} {b : Nat} (hd : Drawn P n b fs fs₁) {zeroed : Bool} {f : PUnit → FsM α} {a : α}
    (hrun : (if zeroed = true then onError (writeFsBlock b zeroBlock) (freeBlock b) >>= f else f ⟨⟩) fs₁ = .ok a fs') :
    ∃ fs₂, Drawn P n b fs fs₂ ∧ (zeroed = true → fs₂.disk b = zeroBlock) ∧ f ⟨⟩ fs₂ = .ok a fs' := by
  cases zeroed with
  | false => exact ⟨fs₁, hd, (fun hz => nomatch hz), hrun⟩
  | true =>
    rw [if_pos rfl] at hrun
    obtain ⟨u, fs₂, hzero, hrun⟩ := bind_eq_ok hrun
    obtain ⟨-, -, rfl⟩ := writeFsBlock_ok (onError_ok hzero)
    exact ⟨_, hd.write zeroBlock, fun _ => disk_setDisk_self .., hrun⟩

/-- The last step: the entry of the lowest indirect block. -/
theorem linkEntry_ok {b c i : Nat} {x : (Nat × Nat) × List Nat} (h : fs.Sound (fun c => P c ∨ c = b)) (hfresh : ¬ P b)
    (hx : fs.pointers.Inner x) (hc : fs.pointers.node x = c) (hdepth : x.2.length + 1 = fs.pointers.depth x.1)
    (hold : fs.pointers.node (below x i) = 0) {f : PUnit → FsM α} {a : α}
    (hrun : (writeIndirectEntry c i b >>= f) fs = .ok a fs') :
    ∃ fs₁, Linked P x.1.1 b (below x i) fs fs₁ ∧ f ⟨⟩ fs₁ = .ok a fs' := by
  obtain ⟨u, fs₁, hwrite, hrun⟩ := bind_eq_ok hrun
  obtain ⟨hi, rfl⟩ := writeIndirectEntry_ok hwrite
  subst hc
  exact ⟨_, linked_setChild h hfresh hx hi hold fun hlt => absurd hlt (by omega), hrun⟩

theorem spotOf_depth (fs : Ext2Fs) (p n logicalBlock : Nat) :
    (spotOf p n logicalBlock).2.length = fs.pointers.depth (spotOf p n logicalBlock).1 := by
  unfold spotOf
  dsimp only
  split
  · rename_i h
    show 0 = logicalBlock - 11
    have : logicalBlock < 12 := h
    omega
  · split
    · rfl
    · split <;> rfl

/-- The spots above that of a logical block are those the code goes through. -/
theorem spotOf_single {p n lb : Nat} (h₁ : ¬ lb < DIRECT_BLOCKS) (h₂ : lb < DIRECT_BLOCKS + p) :
    spotOf p n lb = below ((n, 12), []) (lb - DIRECT_BLOCKS) := by
  unfold spotOf
  rw [if_neg h₁, if_pos h₂]
  rfl

theorem spotOf_double {p n lb : Nat} (h₁ : ¬ lb < DIRECT_BLOCKS) (h₂ : ¬ lb < DIRECT_BLOCKS + p)
    (h₃ : lb < DIRECT_BLOCKS + p + p * p) :
    spotOf p n lb = below (below ((n, 13), []) ((lb - (DIRECT_BLOCKS + p)) / p)) ((lb - (DIRECT_BLOCKS + p)) % p) := by
  unfold spotOf
  rw [if_neg h₁, if_neg h₂, if_pos h₃]
  rfl

theorem spotOf_triple {p n lb : Nat} (h₁ : ¬ lb < DIRECT_BLOCKS) (h₂ : ¬ lb < DIRECT_BLOCKS + p)
    (h₃ : ¬ lb < DIRECT_BLOCKS + p + p * p) :
    spotOf p n lb = below (below (below ((n, 14), []) ((lb - (DIRECT_BLOCKS + p + p * p)) / (p * p)))
      ((lb - (DIRECT_BLOCKS + p + p * p)) / p % p)) ((lb - (DIRECT_BLOCKS + p + p * p)) % p) := by
  unfold spotOf
  rw [if_neg h₁, if_neg h₂, if_neg h₃]
  rfl

theorem Branched.refl (h : fs.Sound P) (n : Nat) : Branched P n 0 fs fs :=
  ⟨h, .refl n fs, fun _ _ => rfl, fun _ _ => rfl⟩

/-- What `allocateBlockForOffset` does once it has block `nb` for the logical block `lb`; an indirect block has `p` entries. -/
def linkTaken (n lb nb p : Nat) : FsM (Nat × Nat) :=
  if lb < DIRECT_BLOCKS then do
    modifyRaw n fun r => r.setBlock lb nb
    return (nb, 1)
  else if lb < DIRECT_BLOCKS + p then do
    let (indirectBlock, n₁) ← topIndirect n 12
    writeIndirectEntry indirectBlock (lb - DIRECT_BLOCKS) nb
    return (nb, 1 + n₁)
  else if lb < DIRECT_BLOCKS + p + p * p then do
    let (l1, n₁) ← topIndirect n 13
    let (l2, n₂) ← nextIndirect n l1 ((lb - (DIRECT_BLOCKS + p)) / p)
    writeIndirectEntry l2 ((lb - (DIRECT_BLOCKS + p)) % p) nb
    return (nb, 1 + n₁ + n₂)
  else do
    let remaining := lb - (DIRECT_BLOCKS + p + p * p)
    let (l1, n₁) ← topIndirect n 14
    let (l2, n₂) ← nextIndirect n l1 (remaining / (p * p))
    let (l3, n₃) ← nextIndirect n l2 (remaining / p % p)
    writeIndirectEntry l3 (remaining % p) nb
    return (nb, 1 + n₁ + n₂ + n₃)

/-- Linking the block that was taken: the way down, level by level. -/
theorem linkTaken_ok (hr : fs.inodeCache n = some r) (hmaps : r.mapsBlocks fs.sectors = true) {fs₁ : Ext2Fs}
    {lb b nb : Nat} {zeroed : Bool} (hd : Drawn P n nb fs fs₁) (hzero : zeroed = true → fs₁.disk nb = zeroBlock)
    (hold : fs.pointers.node (spotOf (fs.blockSize / 4) n lb) = 0)
    (hrun : linkTaken n lb nb (fs.blockSize / 4) fs₁ = .ok (b, k) fs') : Backed P n lb k b zeroed fs fs' := by
  have hleaf := spotOf_depth fs (fs.blockSize / 4) n lb
  have hin : fs.pointers.Inside (spotOf (fs.blockSize / 4) n lb) := Nat.le_of_eq hleaf
  have hr₁ : fs₁.inodeCache n = some r := by rw [hd.cache]; exact hr
  have hmaps₁ : r.mapsBlocks fs₁.sectors = true := by rw [hd.map.layout.sectors]; exact hmaps
  have hold₁ : fs₁.pointers.node (spotOf (fs.blockSize / 4) n lb) = 0 := by rw [hd.map.node hin]; exact hold
  rw [linkTaken] at hrun
  by_cases h₁ : lb < DIRECT_BLOCKS
  · -- a direct block
    rw [if_pos h₁] at hrun
    obtain ⟨r', hr', hrun⟩ := modifyRaw_bind_ok hrun
    rw [hr₁, Option.some.injEq] at hr'
    obtain ⟨hbk, rfl⟩ := pure_eq_ok hrun
    obtain ⟨rfl, rfl⟩ := Prod.mk.inj hbk
    have hlb : lb < 15 := Nat.lt_trans h₁ (by decide)
    have hspot : spotOf (fs.blockSize / 4) n lb = ((n, lb), []) := if_pos h₁
    rw [hspot, Pointers.node_root, root_of_cached hr₁ (hd.sound.cached n r hr₁) hmaps₁ hlb] at hold₁
    have hlink := linked_setRoot hd.sound hd.fresh hr₁ hmaps₁ hlb hold₁ fun h12 => absurd h₁ (Nat.not_lt.2 h12)
    rw [← hspot, hr'] at hlink
    exact hd.backed hzero (.refl hd.sound n) hlink hin
  rw [if_neg h₁] at hrun
  by_cases h₂ : lb < DIRECT_BLOCKS + fs.blockSize / 4
  · -- below the indirect block
    rw [if_pos h₂] at hrun
    rw [spotOf_single h₁ h₂] at hold₁
    obtain ⟨c, k₁, fs₂, hdown, hrun⟩ := topIndirect_bind_ok hd.sound hr₁ hmaps₁ (by decide) (by decide) hrun
    dsimp only at hrun
    obtain ⟨fs₃, hlink, hrun⟩ := linkEntry_ok hdown.sound hd.fresh hdown.inner hdown.node rfl
      ((hdown.branched.leaves _ rfl).trans hold₁) hrun
    obtain ⟨hbk, rfl⟩ := pure_eq_ok hrun
    obtain ⟨rfl, rfl⟩ := Prod.mk.inj hbk
    rw [← spotOf_single h₁ h₂] at hlink
    exact hd.backed hzero hdown.branched hlink hin
  rw [if_neg h₂] at hrun
  by_cases h₃ : lb < DIRECT_BLOCKS + fs.blockSize / 4 + fs.blockSize / 4 * (fs.blockSize / 4)
  · -- below the double indirect block
    rw [if_pos h₃] at hrun
    rw [spotOf_double h₁ h₂ h₃] at hold₁
    obtain ⟨c, k₁, fs₂, hdown, hrun⟩ := topIndirect_bind_ok hd.sound hr₁ hmaps₁ (by decide) (by decide) hrun
    dsimp only at hrun
    rw [← hdown.node] at hrun
    obtain ⟨c₂, k₂, fs₃, hdown₂, hrun⟩ := nextIndirect_bind_ok hdown.sound hdown.inner (by exact Nat.lt_succ_self 1) hrun
    dsimp only at hrun
    have hb := hdown.branched.trans hdown₂.branched
    obtain ⟨fs₄, hlink, hrun⟩ := linkEntry_ok hdown₂.sound hd.fresh hdown₂.inner hdown₂.node rfl
      ((hb.leaves _ rfl).trans hold₁) hrun
    obtain ⟨hbk, rfl⟩ := pure_eq_ok hrun
    obtain ⟨rfl, rfl⟩ := Prod.mk.inj hbk
    rw [← spotOf_double h₁ h₂ h₃] at hlink
    rw [Nat.add_assoc]
    exact hd.backed hzero hb hlink hin
  · -- below the triple indirect block
    rw [if_neg h₃] at hrun
    rw [spotOf_triple h₁ h₂ h₃] at hold₁
    obtain ⟨c, k₁, fs₂, hdown, hrun⟩ := topIndirect_bind_ok hd.sound hr₁ hmaps₁ (by decide) (by decide) hrun
    dsimp only at hrun
    rw [← hdown.node] at hrun
    obtain ⟨c₂, k₂, fs₃, hdown₂, hrun⟩ := nextIndirect_bind_ok hdown.sound hdown.inner (by exact Nat.lt_of_sub_eq_succ rfl) hrun
    dsimp only at hrun
    rw [← hdown₂.node] at hrun
    obtain ⟨c₃, k₃, fs₄, hdown₃, hrun⟩ := nextIndirect_bind_ok hdown₂.sound hdown₂.inner (by exact Nat.lt_succ_self 2) hrun
    dsimp only at hrun
    have hb := (hdown.branched.trans hdown₂.branched).trans hdown₃.branched
    obtain ⟨fs₅, hlink, hrun⟩ := linkEntry_ok hdown₃.sound hd.fresh hdown₃.inner hdown₃.node rfl
      ((hb.leaves _ rfl).trans hold₁) hrun
    obtain ⟨hbk, rfl⟩ := pure_eq_ok hrun
    obtain ⟨rfl, rfl⟩ := Prod.mk.inj hbk
    rw [← spotOf_triple h₁ h₂ h₃] at hlink
    rw [Nat.add_assoc, Nat.add_assoc, ← Nat.add_assoc k₁]
    exact hd.backed hzero hb hlink hin

/-- **Allocating**: when it returns, there is a block behind the logical block, and the number of blocks taken is right. -/
theorem allocateBlockForOffset_ok (h : fs.Sound P) (hr : fs.inodeCache n = some r) (hmaps : r.mapsBlocks fs.sectors = true)
    {logicalBlock b : Nat} {zeroed : Bool} (hrun : allocateBlockForOffset n logicalBlock zeroed fs = .ok (b, k) fs') :
    Backed P n logicalBlock k b zeroed fs fs' := by
  have hleaf := spotOf_depth fs (fs.blockSize / 4) n logicalBlock
  have hin : fs.pointers.Inside (spotOf (fs.blockSize / 4) n logicalBlock) := Nat.le_of_eq hleaf
  obtain ⟨existing, fs₁, hres, hrun⟩ := bind_eq_ok hrun
  obtain ⟨hex, hfs⟩ := resolveBlockId_ok (h.cached n r hr) hr hmaps hres
  rw [hex, hfs] at hrun
  by_cases h0 : fs.pointers.node (spotOf (fs.blockSize / 4) n logicalBlock) = 0
  · rw [if_neg (not_not.2 h0), ptrsPerBlock_bind] at hrun
    obtain ⟨g, hg⟩ := blockGroup_bind n _ fs
    dsimp only at hrun
    rw [hg] at hrun
    obtain ⟨nb, fs₂, halloc, hrun⟩ := bind_eq_ok hrun
    have hd := drawn_of_taken h (allocBlockGoal_ok h.geometry halloc) n
    obtain ⟨fs₃, hd, hzero, hrun⟩ := hd.clear_ok hrun
    exact linkTaken_ok hr hmaps hd hzero h0 hrun
  · rw [if_pos h0] at hrun
    obtain ⟨hbk, rfl⟩ := pure_eq_ok hrun
    obtain ⟨rfl, rfl⟩ := Prod.mk.inj hbk
    exact ⟨h, .refl n _, rfl, h0, fun _ _ _ => rfl, fun hz => absurd hz h0, fun _ _ => rfl⟩

end Allocate

end Koros.Ext2
