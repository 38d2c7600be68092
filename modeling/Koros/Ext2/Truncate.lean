import Koros.Ext2.Shrink
import Koros.Ext2.Write

/-!
# Truncating a file

`truncate` of `kor-ext2/src/inode.rs`: a file cut to nothing loses all its blocks at once (`free_all_blocks`); one cut to
part of its size loses the data blocks behind the cut one by one, and then the indirect blocks that lead to no data.

- `freeAllBlocks_ok`, `recomputeIBlocks_ok`: the two calls that go through a whole tree;
- `truncateTo_ok`: what is left after a successful call;
- `truncate_frees_tail`: a shrinking truncate frees exactly the tail.
-/
set_option autoImplicit false

namespace Koros.Ext2

open Koros.Lib Xattr
open Pointers (below Under)

/-! ## Freeing all blocks -/

section FreeAll

variable {fs A A' : Ext2Fs} {P : Nat → Prop} {n : Nat} {r : RawInode} {M : List Nat} {x : (Nat × Nat) × List Nat}

/-- A call that only marks blocks as free, those in `S`. -/
def Marks (fs : Ext2Fs) (M : List Nat) (S : Nat → Prop) (A' : Ext2Fs) : Prop :=
  ∃ M', A' = fs.markFree (M ++ M') ∧ ∀ b, b ∈ M' ↔ S b

theorem Marks.none {S : Nat → Prop} (hS : ∀ b, ¬ S b) : Marks fs M S (fs.markFree M) :=
  ⟨[], by rw [List.append_nil], fun b => by simp [hS]⟩

theorem marks_freeBlock {b : Nat} {u : PUnit} (hrun : freeBlock b (fs.markFree M) = .ok u A') :
    Marks fs M (fun c => c = b) A' :=
  ⟨[b], by rw [freeBlock_ok hrun, mark_markFree], fun c => List.mem_singleton⟩

theorem Marks.forM {γ : Type} {g : γ → FsM PUnit} {S : γ → Nat → Prop} (js : List γ)
    (hg : ∀ j ∈ js, ∀ {M u A'}, g j (fs.markFree M) = .ok u A' → Marks fs M (S j) A') {u : PUnit}
    (hrun : js.forM g (fs.markFree M) = .ok u A') : Marks fs M (fun b => ∃ j ∈ js, S j b) A' := by
  induction js generalizing M with
  | nil =>
    rw [(pure_eq_ok hrun).2]
    exact .none (by simp)
  | cons j js ih =>
    obtain ⟨v, A₁, hone, hrun⟩ := bind_eq_ok hrun
    obtain ⟨M₁, hA₁, hM₁⟩ := hg j (List.mem_cons_self ..) hone
    rw [hA₁] at hrun
    obtain ⟨M₂, hA₂, hM₂⟩ := ih (fun i hi => hg i (List.mem_cons_of_mem _ hi)) hrun
    refine ⟨M₁ ++ M₂, by rw [hA₂, List.append_assoc], fun b => ?_⟩
    rw [List.mem_append, hM₁, hM₂]
    simp only [List.mem_cons, exists_eq_or_imp]

/-- The blocks at and below a spot. -/
def BlockUnder (fs : Ext2Fs) (x : (Nat × Nat) × List Nat) (b : Nat) : Prop :=
  b ≠ 0 ∧ ∃ z, Under x z ∧ fs.pointers.Inside z ∧ fs.pointers.node z = b

theorem not_blockUnder (h0 : fs.pointers.node x = 0) (b : Nat) : ¬ BlockUnder fs x b := by
  rintro ⟨hb, z, hz, -, rfl⟩
  exact Pointers.node_ne_zero_of_under hz hb h0

theorem blockUnder_leaf (hx : x.2.length = fs.pointers.depth x.1) (hne : fs.pointers.node x ≠ 0) (b : Nat) :
    BlockUnder fs x b ↔ b = fs.pointers.node x := by
  constructor
  · rintro ⟨-, z, hz, hin, rfl⟩
    rcases Pointers.under_iff.1 hz with rfl | ⟨i, hi⟩
    · rfl
    · have hlen := hi.2.length_le
      have hin' : z.2.length ≤ fs.pointers.depth z.1 := hin
      rw [← hz.1] at hin'
      simp only [below, List.length_append, List.length_singleton] at hlen
      omega
  · rintro rfl
    exact ⟨hne, x, .refl x, Nat.le_of_eq hx, rfl⟩

/-- A block with what its pointers lead to. -/
theorem blockUnder_inner (hx : fs.pointers.Inner x) (b : Nat) : BlockUnder fs x b ↔
    (∃ i ∈ List.range (fs.blockSize / 4), BlockUnder fs (below x i) b) ∨ b = fs.pointers.node x := by
  constructor
  · rintro ⟨hb, z, hz, hin, rfl⟩
    rcases Pointers.under_iff.1 hz with rfl | ⟨i, hi⟩
    · exact .inr rfl
    · have hlt := (bounds_of_node _ (Pointers.node_ne_zero_of_under hi hb)).2.2 i (by simp [below])
      exact .inl ⟨i, List.mem_range.2 hlt, hb, z, hi, hin, rfl⟩
  · rintro (⟨i, -, hb, z, hz, hin, hzb⟩ | rfl)
    · exact ⟨hb, z, (Pointers.under_below x i).trans hz, hin, hzb⟩
    · exact ⟨hx.2, x, .refl x, hx.inside, rfl⟩

/-- **`free_indirect`** marks every block of a tree. -/
theorem freeIndirect_ok (hs : fs.Sound P) (level : Nat) (hlevel : x.2.length + (level + 1) = fs.pointers.depth x.1)
    {u : PUnit} (hrun : freeIndirect (level + 1) (fs.pointers.node x) (fs.markFree M) = .ok u A') :
    Marks fs M (BlockUnder fs x) A' := by
  -- the block, after its pointers, whatever is done for each of them
  have hblock : ∀ {x M u A'} (g : Nat → FsM PUnit), fs.pointers.Inner x →
      (∀ i ∈ List.range (fs.blockSize / 4), ∀ {M u A'}, g (fs.pointers.node (below x i)) (fs.markFree M) = .ok u A' →
        Marks fs M (BlockUnder fs (below x i)) A') →
      (readIndirectBlock (fs.pointers.node x) >>= fun ptrs => ptrs.forM g >>= fun _ => freeBlock (fs.pointers.node x))
        (fs.markFree M) = .ok u A' → Marks fs M (BlockUnder fs x) A' := by
    intro x M u A' g hx hg hrun
    obtain ⟨ptrs, A₁, hread, hrun⟩ := bind_eq_ok hrun
    obtain ⟨hptrs, hA₁⟩ := readIndirectBlock_ok hs hx hread
    rw [hptrs, hA₁] at hrun
    obtain ⟨v, A₂, hloop, hrun⟩ := bind_eq_ok hrun
    have hloop : (forM ((List.range (fs.blockSize / 4)).map fun i => fs.pointers.node (below x i)) g : FsM PUnit)
        (fs.markFree M) = .ok v A₂ := hloop
    rw [List.forM_map] at hloop
    obtain ⟨M₁, hA₂, hM₁⟩ := Marks.forM _ hg hloop
    rw [hA₂] at hrun
    obtain ⟨M₂, hA', hM₂⟩ := marks_freeBlock hrun
    refine ⟨M₁ ++ M₂, by rw [hA', List.append_assoc], fun b => ?_⟩
    rw [List.mem_append, hM₁, hM₂, blockUnder_inner hx]
  have hlen : ∀ i, (below x i).2.length = x.2.length + 1 := fun i => by simp [below]
  induction level generalizing x M u A' with
  | zero =>
    rw [freeIndirect] at hrun
    by_cases h0 : fs.pointers.node x = 0
    · rw [if_pos h0] at hrun
      rw [(pure_eq_ok hrun).2]
      exact .none (not_blockUnder h0)
    rw [if_neg h0] at hrun
    have hx : fs.pointers.Inner x := ⟨by omega, h0⟩
    refine hblock _ hx (fun i _ {M u A'} hone => ?_) hrun
    by_cases hi : fs.pointers.node (below x i) = 0
    · rw [if_pos hi] at hone
      rw [(pure_eq_ok hone).2]
      exact .none (not_blockUnder hi)
    · rw [if_neg hi, if_pos rfl] at hone
      obtain ⟨M', hA', hM'⟩ := marks_freeBlock hone
      have hleaf : (below x i).2.length = fs.pointers.depth (below x i).1 := by
        rw [hlen]
        exact hlevel
      exact ⟨M', hA', fun b => by rw [hM', blockUnder_leaf hleaf hi]⟩
  | succ level ih =>
    rw [freeIndirect] at hrun
    by_cases h0 : fs.pointers.node x = 0
    · rw [if_pos h0] at hrun
      rw [(pure_eq_ok hrun).2]
      exact .none (not_blockUnder h0)
    rw [if_neg h0] at hrun
    have hx : fs.pointers.Inner x := ⟨by omega, h0⟩
    refine hblock _ hx (fun i _ {M u A'} hone => ?_) hrun
    by_cases hi : fs.pointers.node (below x i) = 0
    · rw [if_pos hi] at hone
      rw [(pure_eq_ok hone).2]
      exact .none (not_blockUnder hi)
    · rw [if_neg hi, if_neg (Nat.succ_ne_zero level)] at hone
      refine ih ?_ hone (fun j => by simp [below])
      rw [hlen, show fs.pointers.depth (below x i).1 = fs.pointers.depth x.1 from rfl, ← hlevel]
      omega

theorem block_clearBlocks {k : Nat} (hk : k < 15) : r.clearBlocks.block k = 0 := by
  show leNat (fun j => if j < 128 then blit r.bytes 40 60 (fun _ => 0) j else 0) (40 + 4 * k) 4 = 0
  refine (leNat_congr fun j h₁ h₂ => ?_).trans leNat_zero
  rw [if_pos (by omega), blit_of_inside (by omega) (by omega)]

theorem sameFields_clearBlocks (r : RawInode) : RawInode.SameFields r r.clearBlocks := by
  intro j hj
  show (if j < 128 then blit r.bytes 40 60 (fun _ => 0) j else 0) = _
  split
  · exact blit_of_outside (by omega)
  · exact (r.tail j (by omega)).symm

/-- All words of `i_block` are cleared at once. -/
theorem removed_clearBlocks (hs : fs.Sound P) (hr : fs.inodeCache n = some r) :
    Removed n (fun _ => True) fs (fs.setInode n (some r.clearBlocks)) := by
  have hslot := hs.cached n r hr
  have hnode : ∀ z, z.1.1 = n → (fs.setInode n (some r.clearBlocks)).pointers.node z = 0 := by
    rintro z rfl
    by_contra hne
    refine Pointers.node_ne_zero_of_under (under_root z) hne ?_
    show (if fs.IsSlot z.1.1 then ((fs.setInode z.1.1 (some r.clearBlocks)).inode z.1.1).root fs.sectors z.1.2 else 0) = 0
    rw [if_pos hslot, inode_setInode_self]
    unfold RawInode.root
    split
    · rename_i hk
      exact block_clearBlocks hk.1
    · rfl
  refine ⟨⟨sameLayout_setInode .., fun m hm => Function.update_of_ne hm .., fun r' hr' => ?_, fun _ _ => rfl,
    fun z hz _ => .inr (hnode z hz)⟩, fun z hz _ _ => hnode z hz, fun _ _ _ h => absurd trivial h⟩
  rw [hr, Option.some.injEq] at hr'
  subst hr'
  exact ⟨_, Function.update_self .., sameFields_clearBlocks r⟩

/-- The twelve direct blocks. -/
theorem freeDirect_ok (hs : fs.Sound P) (hr : fs.inodeCache n = some r) (hmaps : r.mapsBlocks fs.sectors = true)
    {u : PUnit} (hrun : ((List.range DIRECT_BLOCKS).forM fun k => if r.block k = 0 then pure ⟨⟩ else freeBlock (r.block k))
      (fs.markFree M) = .ok u A') :
    Marks fs M (fun b => ∃ k ∈ List.range DIRECT_BLOCKS, BlockUnder fs ((n, k), []) b) A' := by
  refine Marks.forM _ (fun k hk {M u A'} hone => ?_) hrun
  have hk' : k < 12 := List.mem_range.1 hk
  have hroot : r.block k = fs.pointers.node ((n, k), []) :=
    (root_of_cached hr (hs.cached n r hr) hmaps (by omega)).symm
  by_cases h0 : r.block k = 0
  · rw [if_pos h0] at hone
    rw [(pure_eq_ok hone).2]
    exact .none (not_blockUnder (by rw [← hroot]; exact h0))
  · rw [if_neg h0] at hone
    obtain ⟨M', hA', hM'⟩ := marks_freeBlock hone
    have hleaf : ((n, k), ([] : List Nat)).2.length = fs.pointers.depth (n, k) := by
      show 0 = k - 11
      omega
    exact ⟨M', hA', fun b => by rw [hM', blockUnder_leaf hleaf (by rw [← hroot]; exact h0), hroot]⟩

theorem Marks.trans {S S' : Nat → Prop} {A₁ : Ext2Fs} (h : Marks fs M S A₁) {f : FsM PUnit} {u : PUnit}
    (hf : ∀ {M u A'}, f (fs.markFree M) = .ok u A' → Marks fs M S' A') (hrun : f A₁ = .ok u A') :
    Marks fs M (fun b => S b ∨ S' b) A' := by
  obtain ⟨M₁, hA₁, hM₁⟩ := h
  rw [hA₁] at hrun
  obtain ⟨M₂, hA₂, hM₂⟩ := hf hrun
  exact ⟨M₁ ++ M₂, by rw [hA₂, List.append_assoc], fun b => by rw [List.mem_append, hM₁, hM₂]⟩

/-- **`free_all_blocks`**: all blocks of the inode are freed. -/
theorem freeAllBlocks_ok (hs : fs.Sound P) (hr : fs.inodeCache n = some r) (hmaps : r.mapsBlocks fs.sectors = true)
    {u : PUnit} (hrun : freeAllBlocks n fs = .ok u A') :
    ∃ A₁, Frees n (fun _ => True) fs [] A₁ ∧ A₁.inodeCache n = some r.clearBlocks ∧
      A' = A₁.setInode n (some (r.clearBlocks.setBlocks 0)) := by
  have hroot : ∀ k, k < 15 → r.block k = fs.pointers.node ((n, k), []) := fun k hk =>
    (root_of_cached hr (hs.cached n r hr) hmaps hk).symm
  obtain ⟨r', hr', hrun⟩ := raw_bind_ok hrun
  rw [hr, Option.some.injEq] at hr'
  subst hr'
  rw [hroot 12 (by omega), hroot 13 (by omega), hroot 14 (by omega)] at hrun
  obtain ⟨u₁, A₁, hrun₁, hrun⟩ := bind_eq_ok hrun
  obtain ⟨u₂, A₂, hrun₂, hrun⟩ := bind_eq_ok hrun
  obtain ⟨u₃, A₃, hrun₃, hrun⟩ := bind_eq_ok hrun
  obtain ⟨u₄, A₄, hrun₄, hrun⟩ := bind_eq_ok hrun
  have h₁ := freeDirect_ok (M := []) hs hr hmaps hrun₁
  have h₂ := h₁.trans (freeIndirect_ok hs 0 (x := ((n, 12), [])) rfl) hrun₂
  have h₃ := h₂.trans (freeIndirect_ok hs 1 (x := ((n, 13), [])) rfl) hrun₃
  obtain ⟨M', hA₄, hM'⟩ := h₃.trans (freeIndirect_ok hs 2 (x := ((n, 14), [])) rfl) hrun₄
  rw [List.nil_append] at hA₄
  obtain ⟨r₄, hr₄, hA'⟩ := modifyRaw_ok hrun
  rw [hA₄, inodeCache_markFree, hr, Option.some.injEq] at hr₄
  subst hr₄
  have hrem := removed_clearBlocks hs hr
  refine ⟨(fs.setInode n (some r.clearBlocks)).markFree M', ⟨_, M', rfl, hrem, fun b => ?_⟩, ?_, ?_⟩
  · rw [hM', hrem.lost_iff]
    constructor
    · rintro (((⟨k, -, hb, z, hz, hin, hzb⟩ | ⟨hb, z, hz, hin, hzb⟩) | ⟨hb, z, hz, hin, hzb⟩) | ⟨hb, z, hz, hin, hzb⟩)
      all_goals exact ⟨hb, z, by rw [← hz.1], hin, hzb, trivial⟩
    · rintro ⟨hb, z, hz, hin, hzb, -⟩
      obtain ⟨-, h15, -⟩ := bounds_of_node z (by rw [hzb]; exact hb)
      have hunder : BlockUnder fs ((n, z.1.2), []) b := by
        refine ⟨hb, z, ?_, hin, hzb⟩
        rw [← hz]
        exact under_root z
      rcases (by omega : z.1.2 < 12 ∨ z.1.2 = 12 ∨ z.1.2 = 13 ∨ z.1.2 = 14) with hk | hk | hk | hk
      · exact .inl (.inl (.inl ⟨z.1.2, List.mem_range.2 hk, hunder⟩))
      · exact .inl (.inl (.inr (hk ▸ hunder)))
      · exact .inl (.inr (hk ▸ hunder))
      · exact .inr (hk ▸ hunder)
  · rw [inodeCache_markFree]
    exact Function.update_self ..
  · rw [hA', hA₄, ← setInode_markFree]
    simp [Ext2Fs.setInode]

end FreeAll

/-! ## Counting -/

section Count

variable {fs fs' : Ext2Fs} {P : Nat → Prop} {n : Nat} {r : RawInode} {x : (Nat × Nat) × List Nat}

/-- A loop that adds something for every item. -/
theorem foldlM_add_ok {γ : Type} {step : Nat → γ → FsM Nat} {f : γ → Nat} (js : List γ)
    (hstep : ∀ j ∈ js, ∀ {count c fs'}, step count j fs = .ok c fs' → c = count + f j ∧ fs' = fs) {start total : Nat}
    (hrun : (js.foldlM step start : FsM Nat) fs = .ok total fs') : total = start + (js.map f).sum ∧ fs' = fs := by
  induction js generalizing start with
  | nil => exact pure_eq_ok hrun
  | cons j js ih =>
    obtain ⟨c, fs₁, hone, hrun⟩ := bind_eq_ok hrun
    obtain ⟨hc, hfs₁⟩ := hstep j (List.mem_cons_self ..) hone
    rw [hfs₁] at hrun
    obtain ⟨htotal, hfs⟩ := ih (fun i hi => hstep i (List.mem_cons_of_mem _ hi)) hrun
    exact ⟨by rw [htotal, hc, List.map_cons, List.sum_cons, Nat.add_assoc], hfs⟩

/-- **`count_indirect`** counts the nodes of a tree. -/
theorem countIndirect_ok (hs : fs.Sound P) (level : Nat) (hlevel : x.2.length + (level + 1) = fs.pointers.depth x.1)
    {c : Nat} (hrun : countIndirect (level + 1) (fs.pointers.node x) fs = .ok c fs') :
    c = treeCount fs.pointers.child (fs.blockSize / 4) (level + 1) (fs.pointers.node x) ∧ fs' = fs := by
  induction level generalizing x c fs' with
  | zero =>
    rw [countIndirect] at hrun
    by_cases h0 : fs.pointers.node x = 0
    · rw [if_pos h0] at hrun
      rw [h0, treeCount_null]
      exact pure_eq_ok hrun
    rw [if_neg h0] at hrun
    obtain ⟨ptrs, fs₁, hread, hrun⟩ := bind_eq_ok hrun
    obtain ⟨hptrs, hfs₁⟩ := readIndirectBlock_ok (M := []) hs ⟨by omega, h0⟩ hread
    rw [hfs₁, markFree_nil] at hrun
    obtain ⟨hc, hfs⟩ := foldlM_add_ok (f := fun p => treeCount fs.pointers.child (fs.blockSize / 4) 0 p) ptrs
      (fun p _ {count c fs'} hone => by
        by_cases hp : p = 0
        · rw [if_pos hp] at hone
          rw [hp, treeCount_null]
          exact pure_eq_ok hone
        · rw [if_neg hp, if_pos rfl] at hone
          rw [treeCount_leaf hp]
          exact pure_eq_ok hone) hrun
    refine ⟨?_, hfs⟩
    rw [hc, treeCount_node h0, hptrs, List.map_map]
    simp only [Function.comp_def, Pointers.node_below_of_ne h0]
  | succ level ih =>
    rw [countIndirect] at hrun
    by_cases h0 : fs.pointers.node x = 0
    · rw [if_pos h0] at hrun
      rw [h0, treeCount_null]
      exact pure_eq_ok hrun
    rw [if_neg h0] at hrun
    obtain ⟨ptrs, fs₁, hread, hrun⟩ := bind_eq_ok hrun
    obtain ⟨hptrs, hfs₁⟩ := readIndirectBlock_ok (M := []) hs ⟨by omega, h0⟩ hread
    rw [hfs₁, markFree_nil] at hrun
    obtain ⟨hc, hfs⟩ := foldlM_add_ok (f := fun p => treeCount fs.pointers.child (fs.blockSize / 4) (level + 1) p) ptrs
      (fun p hp {count c fs'} hone => by
        by_cases hp0 : p = 0
        · rw [if_pos hp0] at hone
          rw [hp0, treeCount_null]
          exact pure_eq_ok hone
        · rw [if_neg hp0, if_neg (Nat.succ_ne_zero level)] at hone
          rw [hptrs] at hp
          obtain ⟨i, -, rfl⟩ := List.mem_map.1 hp
          obtain ⟨c', fs₂, hsub, hone⟩ := bind_eq_ok hone
          have hlevel' : (below x i).2.length + (level + 1) = fs.pointers.depth (below x i).1 := by
            rw [show fs.pointers.depth (below x i).1 = fs.pointers.depth x.1 from rfl, ← hlevel]
            simp only [below, List.length_append, List.length_singleton]
            omega
          obtain ⟨hc', hfs₂⟩ := ih hlevel' hsub
          rw [hc', hfs₂] at hone
          exact pure_eq_ok hone) hrun
    refine ⟨?_, hfs⟩
    rw [hc, treeCount_node h0, hptrs, List.map_map]
    simp only [Function.comp_def, Pointers.node_below_of_ne h0]

/-- The trees of an inode: twelve blocks and three trees. -/
theorem treeSize_eq (hr : fs.inodeCache n = some r) (hslot : fs.IsSlot n) (hmaps : r.mapsBlocks fs.sectors = true) :
    fs.treeSize n = ((List.range DIRECT_BLOCKS).filter fun k => r.block k ≠ 0).length +
      treeCount fs.pointers.child (fs.blockSize / 4) 1 (r.block 12) +
      treeCount fs.pointers.child (fs.blockSize / 4) 2 (r.block 13) +
      treeCount fs.pointers.child (fs.blockSize / 4) 3 (r.block 14) := by
  have hroot : ∀ k, k < 15 → fs.pointers.root (n, k) = r.block k := fun k => root_of_cached hr hslot hmaps
  have hdirect : ∀ (ks : List Nat), (∀ k ∈ ks, k < 12) →
      (ks.map fun k => treeCount fs.pointers.child (fs.blockSize / 4) (fs.pointers.depth (n, k)) (fs.pointers.root (n, k))).sum =
        (ks.filter fun k => r.block k ≠ 0).length := by
    intro ks hks
    induction ks with
    | nil => rfl
    | cons k ks ih =>
      have hk := hks k (List.mem_cons_self ..)
      have hdepth : fs.pointers.depth (n, k) = 0 := by
        show k - 11 = 0
        omega
      rw [List.map_cons, List.sum_cons, ih fun j hj => hks j (List.mem_cons_of_mem _ hj), hdepth, hroot k (by omega),
        List.filter_cons]
      by_cases h0 : r.block k = 0
      · simp [h0]
      · rw [treeCount_leaf h0]
        simp [h0]
        omega
  unfold Ext2Fs.treeSize
  rw [Pointers.count_eq_sum, List.map_map, show List.range 15 = List.range DIRECT_BLOCKS ++ [12, 13, 14] from rfl,
    List.map_append, List.sum_append]
  have hd := hdirect (List.range DIRECT_BLOCKS) fun k hk => List.mem_range.1 hk
  simp only [Function.comp_def]
  rw [hd]
  simp only [List.map_cons, List.map_nil, List.sum_cons, List.sum_nil, Nat.add_zero, hroot 12 (by omega),
    hroot 13 (by omega), hroot 14 (by omega)]
  show _ + (treeCount _ _ 1 _ + (treeCount _ _ 2 _ + treeCount _ _ 3 _)) = _
  omega

/-- **`recompute_i_blocks`** counts what the inode has. -/
theorem recomputeIBlocks_ok (hs : fs.Sound P) (hr : fs.inodeCache n = some r) (hmaps : r.mapsBlocks fs.sectors = true)
    {u : PUnit} (hrun : recomputeIBlocks n fs = .ok u fs') :
    fs' = fs.setInode n (some (r.setBlocks (fs.blockCount n * fs.sectors % 2 ^ 32))) := by
  have hslot := hs.cached n r hr
  have hroot : ∀ k, k < 15 → r.block k = fs.pointers.node ((n, k), []) := fun k hk =>
    (root_of_cached hr hslot hmaps hk).symm
  have hsize := treeSize_eq hr hslot hmaps
  obtain ⟨r', hr', hrun⟩ := raw_bind_ok hrun
  rw [hr, Option.some.injEq] at hr'
  subst hr'
  rw [hroot 12 (by omega), hroot 13 (by omega), hroot 14 (by omega)] at hrun hsize
  obtain ⟨c₁, fs₁, hrun₁, hrun⟩ := bind_eq_ok hrun
  obtain ⟨rfl, rfl⟩ := countIndirect_ok hs 0 (x := ((n, 12), [])) rfl hrun₁
  obtain ⟨c₂, fs₂, hrun₂, hrun⟩ := bind_eq_ok hrun
  obtain ⟨rfl, rfl⟩ := countIndirect_ok hs 1 (x := ((n, 13), [])) rfl hrun₂
  obtain ⟨c₃, fs₃, hrun₃, hrun⟩ := bind_eq_ok hrun
  obtain ⟨rfl, rfl⟩ := countIndirect_ok hs 2 (x := ((n, 14), [])) rfl hrun₃
  obtain ⟨r₃, hr₃, hfs'⟩ := modifyRaw_ok hrun
  rw [hr, Option.some.injEq] at hr₃
  subst hr₃
  rw [hfs', Ext2Fs.blockCount, hsize]
  have hacl : fs₃.acl n = r.fileAcl := by
    show (if fs₃.IsSlot n then _ else 0) = _
    rw [if_pos hslot, inode_of_cached hr]
  rw [hacl, show (if r.fileAcl ≠ 0 then 1 else 0) = if r.fileAcl = 0 then 0 else 1 by rw [ite_not]]
  rfl

end Count

/-! ## Spots of data blocks -/

/-- Every spot at the lowest level is that of a logical block. -/
theorem exists_spotOf {p k : Nat} (n : Nat) {path : List Nat} (hk : k < 15) (hlen : path.length = k - 11)
    (hpath : ∀ i ∈ path, i < p) : ∃ q, spotOf p n q = ((n, k), path) := by
  rcases (by omega : k < 12 ∨ k = 12 ∨ k = 13 ∨ k = 14) with hk | rfl | rfl | rfl
  · obtain rfl : path = [] := List.length_eq_zero_iff.1 (by omega)
    exact ⟨k, if_pos hk⟩
  · obtain ⟨i, rfl⟩ := List.length_eq_one_iff.1 hlen
    have hi := hpath i (by simp)
    refine ⟨DIRECT_BLOCKS + i, ?_⟩
    rw [spotOf_single (by omega) (by omega), Nat.add_sub_cancel_left]
    rfl
  · obtain ⟨i, j, rfl⟩ := List.length_eq_two.1 hlen
    have hi := hpath i (by simp)
    have hj := hpath j (by simp)
    have hlt := mul_add_lt_mul hi hj
    obtain ⟨hdiv, hmod⟩ := mul_add_div_mod (i := i) hj
    refine ⟨DIRECT_BLOCKS + p + (i * p + j), ?_⟩
    rw [spotOf_double (by omega) (by omega) (by omega), Nat.add_sub_cancel_left, hdiv, hmod]
    rfl
  · obtain ⟨i, j, l, rfl⟩ := List.length_eq_three.1 hlen
    have hj := hpath j (by simp)
    have hl := hpath l (by simp)
    obtain ⟨hdiv, hmod⟩ := mul_add_div_mod (i := i * p + j) hl
    obtain ⟨hdiv', hmod'⟩ := mul_add_div_mod (i := i) hj
    refine ⟨DIRECT_BLOCKS + p + p * p + ((i * p + j) * p + l), ?_⟩
    rw [spotOf_triple (by omega) (by omega) (by omega), Nat.add_sub_cancel_left, ← Nat.div_div_eq_div_mul, hdiv, hmod,
      hdiv', hmod']
    rfl

/-- A block at the lowest level lies behind a logical block. -/
theorem exists_blockAt {fs : Ext2Fs} {z : (Nat × Nat) × List Nat} (hz : z.2.length = fs.pointers.depth z.1)
    (hne : fs.pointers.node z ≠ 0) : ∃ q, z = spotOf (fs.blockSize / 4) z.1.1 q := by
  obtain ⟨-, h15, hpath⟩ := bounds_of_node z hne
  obtain ⟨q, hq⟩ := exists_spotOf z.1.1 h15 hz hpath
  exact ⟨q, hq.symm⟩

theorem leads_iff_blockAt {fs : Ext2Fs} {x : (Nat × Nat) × List Nat} : fs.pointers.Leads x ↔
    ∃ q, fs.blockAt x.1.1 q ≠ 0 ∧ Under x (spotOf (fs.blockSize / 4) x.1.1 q) := by
  constructor
  · rintro ⟨z, hz, hlen, hne⟩
    obtain ⟨q, hq⟩ := exists_blockAt hlen hne
    rw [← hz.1] at hq
    exact ⟨q, by rw [Ext2Fs.blockAt, ← hq]; exact hne, hq ▸ hz⟩
  · rintro ⟨q, hne, hq⟩
    exact ⟨_, hq, spotOf_depth fs _ _ q, hne⟩

theorem under_spotOf {p n q q' : Nat} (fs : Ext2Fs) (h : Under (spotOf p n q) (spotOf p n q')) : q = q' := by
  refine spotOf_inj (p := p) (n := n) (Prod.ext h.1 (h.2.eq_of_length ?_))
  rw [spotOf_depth fs, spotOf_depth fs, h.1]

section Trim

variable {fs fs' A A' : Ext2Fs} {P : Nat → Prop} {n : Nat} {r : RawInode} {C : (Nat × Nat) × List Nat → Prop}

/-- The spots in `C` of inode `n` are gone, and their blocks are free. -/
structure Trimmed (P : Nat → Prop) (n : Nat) (C : (Nat × Nat) × List Nat → Prop) (fs fs' : Ext2Fs) : Prop where
  sound : fs'.Sound P
  step : Step n fs fs'
  acl : fs'.acl = fs.acl
  gone : ∀ z, z.1.1 = n → fs.pointers.Inside z → C z → fs'.pointers.node z = 0
  stay : ∀ z, z.1.1 = n → fs.pointers.Inside z → ¬ C z → fs'.pointers.node z = fs.pointers.node z
  allocated : ∀ b, fs'.Allocated .block b ↔ fs.Allocated .block b ∧
    ¬ (b ≠ 0 ∧ ∃ z, z.1.1 = n ∧ fs.pointers.Inside z ∧ fs.pointers.node z = b ∧ C z)
  leaf : ∀ z, z.2.length = fs.pointers.depth z.1 → fs.pointers.node z ≠ 0 →
    fs'.disk (fs.pointers.node z) = fs.disk (fs.pointers.node z)

theorem Frees.trimmed (hs : fs.Sound P) (hr : fs.inodeCache n = some r) (h : Frees n C fs [] A) :
    Trimmed P n C fs A ∧ ∃ r', A.inodeCache n = some r' ∧ RawInode.SameFields r r' := by
  obtain ⟨fs₁, M, hA, hrem, hlost⟩ := h
  rw [List.nil_append] at hA
  obtain ⟨hsound, hstep, halloc⟩ := hs.cut_free hrem.toCut hr hlost
  have hs₁ := hs.cut hrem.toCut hr
  subst hA
  have hacl : (fs₁.markFree M).acl = fs.acl := (sameMap_markFree hs₁ M).acl.trans (hrem.toCut.acl hs hr)
  refine ⟨⟨hsound, hstep, hacl, fun z hz hin hc => ?_, fun z hz hin hc => ?_, fun b => ?_, fun z hz hne => ?_⟩, ?_⟩
  · rw [node_markFree hs₁ M hin]
    exact hrem.gone z hz hin hc
  · rw [node_markFree hs₁ M hin]
    exact hrem.stay z hz hin hc
  · rw [halloc, hrem.lost_iff]
  · have hnb : ¬ fs₁.IsBitmap (fs.pointers.node z) := by
      rw [hrem.layout.isBitmap]
      exact (hs.tree z (Nat.le_of_eq hz) hne).not_bitmap
    rw [disk_markFree hnb]
    exact hrem.toCut.leaf hs hz hne
  · rw [inodeCache_markFree]
    exact hrem.fields r hr

/-- Fields of the inode are set, and it is written back. -/
theorem Trimmed.keep (h : Trimmed P n C fs A) (hk : Kept P n A A') (hs : fs.Sound P) : Trimmed P n C fs A' where
  sound := hk.sound
  step := h.step.trans hk.step
  acl := hk.map.acl.trans h.acl
  gone := fun z hz hin hc => (hk.map.node hin).trans (h.gone z hz hin hc)
  stay := fun z hz hin hc => (hk.map.node hin).trans (h.stay z hz hin hc)
  allocated := fun b => (hk.allocated h.sound .block b).trans (h.allocated b)
  leaf := fun z hz hne => by
    refine (hk.disk _ ?_).trans (h.leaf z hz hne)
    rw [h.step.layout.isTable]
    exact (hs.tree z (Nat.le_of_eq hz) hne).not_table

theorem Kept.trimmed (hs : fs.Sound P) (hk : Kept P n fs fs') (hC : ∀ z, ¬ C z) : Trimmed P n C fs fs' where
  sound := hk.sound
  step := hk.step
  acl := hk.map.acl
  gone := fun z _ _ hc => absurd hc (hC z)
  stay := fun z _ hin _ => hk.map.node hin
  allocated := fun b => by
    rw [hk.allocated hs]
    exact (and_iff_left fun ⟨_, z, _, _, _, hc⟩ => hC z hc).symm
  leaf := fun z hz hne => hk.disk _ (hs.tree z (Nat.le_of_eq hz) hne).not_table

/-- A spot with no data block behind it, but for blocks from `keep` to `old`. -/
def Tail (fs : Ext2Fs) (n keep old : Nat) (z : (Nat × Nat) × List Nat) : Prop :=
  ¬ ∃ q, (q < keep ∨ old ≤ q) ∧ fs.blockAt n q ≠ 0 ∧ Under z (spotOf (fs.blockSize / 4) n q)

/-- The data blocks are cut off, and then what leads to none. -/
theorem cutTail_ok (hs : fs.Sound P) (hr : fs.inodeCache n = some r) (hmaps : r.mapsBlocks fs.sectors = true)
    {keep old : Nat} {u v : PUnit} {A₁ : Ext2Fs}
    (hclear : (List.range' keep (old - keep)).forM (freeAndClearLogical n) fs = .ok u A₁)
    (hprune : pruneEmptyIndirects n A₁ = .ok v A) : Frees n (Tail fs n keep old) fs [] A := by
  obtain ⟨fs₁, M₁, hA₁, hrem, hlost⟩ := clearRange_ok (M := []) _ hs hr hmaps hclear
  obtain ⟨r₁, hr₁, hsame⟩ := hrem.fields r hr
  have hmaps₁ : r₁.mapsBlocks fs₁.sectors = true := by rw [hsame.mapsBlocks, hrem.layout.sectors, hmaps]
  rw [hA₁] at hprune
  have hfrees := Frees.trans hrem hlost (pruneEmptyIndirects_ok (hs.cut hrem.toCut hr) hr₁ hmaps₁ hprune)
  -- a data block stays if and only if it is not in the range
  have hblock : ∀ q, fs₁.pointers.node (spotOf (fs.blockSize / 4) n q) ≠ 0 ↔
      (q < keep ∨ old ≤ q) ∧ fs.blockAt n q ≠ 0 := by
    intro q
    have hin := inside_spotOf fs n q
    have hfst := spotOf_fst (fs.blockSize / 4) n q
    by_cases hq : q ∈ List.range' keep (old - keep)
    · rw [hrem.gone _ hfst hin ⟨q, hq, rfl⟩]
      rw [List.mem_range'_1] at hq
      omega
    · rw [hrem.stay _ hfst hin fun ⟨q', hq', heq⟩ => hq (spotOf_inj heq ▸ hq')]
      rw [List.mem_range'_1] at hq
      exact (and_iff_right (by omega)).symm
  refine hfrees.congr fun z hz hin hne => ?_
  have hleads : fs₁.pointers.Leads z ↔ ¬ Tail fs n keep old z := by
    rw [Tail, not_not, leads_iff_blockAt, hz]
    refine exists_congr fun q => ?_
    rw [hrem.layout.blockAt, hblock, hrem.layout.blockSize, and_assoc]
  rw [hleads, not_not]
  refine or_iff_right_of_imp ?_
  rintro ⟨q, hq, rfl⟩ ⟨q', hrange, hblk, hq'⟩
  refine Pointers.node_ne_zero_of_under hq' ((hblock q').2 ⟨hrange, hblk⟩) ?_
  exact hrem.gone _ (spotOf_fst ..) hin ⟨q, hq, rfl⟩

theorem Trimmed.blockAt_gone (h : Trimmed P n C fs fs') {q : Nat} (hC : C (spotOf (fs.blockSize / 4) n q)) :
    fs'.blockAt n q = 0 := by
  rw [h.step.layout.blockAt]
  exact h.gone _ (spotOf_fst ..) (inside_spotOf fs n q) hC

theorem Trimmed.blockAt_stay (h : Trimmed P n C fs fs') {q : Nat} (hC : ¬ C (spotOf (fs.blockSize / 4) n q)) :
    fs'.blockAt n q = fs.blockAt n q := by
  rw [h.step.layout.blockAt]
  exact h.stay _ (spotOf_fst ..) (inside_spotOf fs n q) hC

/-- A block that stays keeps its bytes. -/
theorem Trimmed.blockData (h : Trimmed P n C fs fs') {q : Nat} (hq : fs'.blockAt n q = fs.blockAt n q) :
    fs'.blockData n q = fs.blockData n q :=
  blockData_congr hq fun hne => h.leaf _ (spotOf_depth fs _ n q) hne

/-- Cutting never adds. -/
theorem Trimmed.blockCount_le (h : Trimmed P n C fs fs') : fs'.blockCount n ≤ fs.blockCount n := by
  rw [Ext2Fs.blockCount, Ext2Fs.blockCount, h.acl]
  refine Nat.add_le_add_right ?_ _
  unfold Ext2Fs.treeSize
  rw [h.step.layout.blockSize]
  refine List.countP_mono_left fun z hz hne => ?_
  obtain ⟨hk, hin, -⟩ := Pointers.mem_spots.1 hz
  obtain ⟨k, -, hk⟩ := List.mem_map.1 hk
  have hfst : z.1.1 = n := by rw [← hk]
  have hne : fs'.pointers.node z ≠ 0 := of_decide_eq_true hne
  by_cases hC : C z
  · exact absurd (h.gone z hfst hin hC) hne
  · exact decide_eq_true (h.stay z hfst hin hC ▸ hne)

/-- The time, and the inode on disk. -/
theorem finishTruncate_ok (hs : fs.Sound P) (hr : fs.inodeCache n = some r) (hreg : r.fmt = EXT2_S_IFREG) {u : PUnit}
    (hrun : (do
      modifyRaw n fun r => r.setMtime 0
      writeInodeToDisk n : FsM Unit) fs = .ok u fs') :
    Kept P n fs fs' ∧ fs'.fileSize n = fs.fileSize n ∧ (fs'.inode n).blocks = r.blocks ∧
      ∃ r', fs'.inodeCache n = some r' ∧ r'.fmt = EXT2_S_IFREG := by
  obtain ⟨r', hr', hrun⟩ := modifyRaw_bind_ok hrun
  rw [hr, Option.some.injEq] at hr'
  subst hr'
  have hsame : r.SameRefs (r.setMtime 0) := RawInode.sameRefs_put (by omega)
  have hkept := hs.keep hr hsame (by rw [hreg]; decide)
  have hback := writeInodeToDisk_ok hkept.sound hrun
  have hcached : fs'.inodeCache n = some (r.setMtime 0) := (congrFun hback.cache n).trans (Function.update_self ..)
  refine ⟨hkept.trans (hkept.sound.keep_writtenBack hback), ?_, ?_, _, hcached, hsame.fmt.trans hreg⟩
  · rw [fileSize_of_cached hcached, fileSize_of_cached hr, hback.map.layout.hasLargeFile]
    exact RawInode.fileSize_put _ (by omega)
  · rw [inode_of_cached hcached]
    exact RawInode.get_put_of_disjoint (by omega) (by omega)

/-- The size is set. -/
theorem keepSize_ok (hs : fs.Sound P) (hr : fs.inodeCache n = some r) (hreg : r.fmt = EXT2_S_IFREG) {s : Nat} {u : PUnit}
    (hrun : setSize n s fs = .ok u fs') :
    ∃ r', Kept P n fs fs' ∧ fs'.inodeCache n = some r' ∧ r'.fmt = EXT2_S_IFREG ∧ r'.blocks = r.blocks ∧
      fs'.fileSize n = storedSize fs.superBlock.hasLargeFile r s := by
  obtain ⟨r', r'', hr', hfs', hsame, hblocks, hsize⟩ := setSize_ok hrun
  rw [hr, Option.some.injEq] at hr'
  subst hr'
  have hcached : fs'.inodeCache n = some r'' := by
    rw [hfs']
    exact Function.update_self ..
  refine ⟨r'', ?_, hcached, hsame.fmt.trans hreg, hblocks, ?_⟩
  · rw [hfs']
    exact hs.keep hr hsame (by rw [hreg]; decide)
  · rw [fileSize_of_cached hcached, hfs']
    exact hsize

/-- The number of blocks is set. -/
theorem keepBlocks_ok (hs : fs.Sound P) (hr : fs.inodeCache n = some r) (hreg : r.fmt = EXT2_S_IFREG) (v : Nat) :
    Kept P n fs (fs.setInode n (some (r.setBlocks v))) ∧ (fs.setInode n (some (r.setBlocks v))).fileSize n = fs.fileSize n ∧
      (r.setBlocks v).fmt = EXT2_S_IFREG := by
  have hsame : r.SameRefs (r.setBlocks v) := RawInode.sameRefs_put (by omega)
  refine ⟨hs.keep hr hsame (by rw [hreg]; decide), ?_, hsame.fmt.trans hreg⟩
  rw [fileSize_of_cached (Function.update_self ..), fileSize_of_cached hr]
  exact RawInode.fileSize_put _ (by omega)

/-! ## The whole call -/

/-- The spots that a call of `truncate` cuts off. -/
def Dropped (fs : Ext2Fs) (n newSize : Nat) (z : (Nat × Nat) × List Nat) : Prop :=
  if newSize = 0 then True
  else if fs.fileSize n ≤ newSize then False
  else Tail fs n (divCeil newSize fs.blockSize % 2 ^ 32) (divCeil (fs.fileSize n) fs.blockSize % 2 ^ 32) z

/-- An inode without spots. -/
theorem treeSize_of_none (h : ∀ z, z.1.1 = n → fs.pointers.Inside z → fs.pointers.node z = 0) : fs.treeSize n = 0 := by
  refine List.countP_eq_zero.2 fun z hz => ?_
  obtain ⟨hk, hin, -⟩ := Pointers.mem_spots.1 hz
  obtain ⟨k, -, hk⟩ := List.mem_map.1 hk
  rw [h z (by rw [← hk]) hin]
  decide

theorem storedSize_congr {r' : RawInode} {large : Bool} (h : r'.fmt = r.fmt) (s : Nat) :
    storedSize large r' s = storedSize large r s := by
  rw [storedSize, storedSize, h]

theorem Trimmed.congr {C' : (Nat × Nat) × List Nat → Prop} (h : Trimmed P n C fs fs') (hC : ∀ z, C z ↔ C' z) :
    Trimmed P n C' fs fs' := by
  rwa [← funext fun z => propext (hC z)]

/-- **`truncate_to`**: what is left of the tree, the size, and the number of blocks of a file that got shorter. -/
theorem truncateTo_ok (hs : fs.Sound P) (hr : fs.inodeCache n = some r) (hreg : r.fmt = EXT2_S_IFREG) {newSize : Nat}
    {u : PUnit} (hrun : truncateTo n newSize fs = .ok u fs') :
    Trimmed P n (Dropped fs n newSize) fs fs' ∧
      fs'.fileSize n = storedSize fs.superBlock.hasLargeFile r newSize ∧
      (newSize < fs.fileSize n → fs.acl n = 0 → (fs'.inode n).blocks = fs'.blockCount n * fs'.sectors % 2 ^ 32) ∧
      ∃ r', fs'.inodeCache n = some r' ∧ r'.fmt = EXT2_S_IFREG := by
  have hmaps := RawInode.mapsBlocks_of_regular hreg fs.sectors
  rw [truncateTo] at hrun
  obtain ⟨cur, fs₀, hsize, hrun⟩ := bind_eq_ok hrun
  obtain ⟨hcur, hfs₀⟩ := size_ok hsize
  rw [hcur, hfs₀, get_bind] at hrun
  dsimp only at hrun
  by_cases h0 : newSize = 0
  · rw [if_pos h0] at hrun
    obtain ⟨u₁, A₁, hfree, hrun⟩ := bind_eq_ok hrun
    obtain ⟨u₂, A₂, hset, hrun⟩ := bind_eq_ok hrun
    obtain ⟨A₀, hfrees, hr₀, hA₁⟩ := freeAllBlocks_ok hs hr hmaps hfree
    obtain ⟨htrim, r₀, hr₀', hsame⟩ := hfrees.trimmed hs hr
    rw [hr₀, Option.some.injEq] at hr₀'
    subst hr₀'
    obtain ⟨hkept₁, -, hreg₁⟩ := keepBlocks_ok htrim.sound hr₀ (hsame.fmt.trans hreg) 0
    rw [← hA₁] at hkept₁
    have hr₁ : A₁.inodeCache n = some (r.clearBlocks.setBlocks 0) := by
      rw [hA₁]
      exact Function.update_self ..
    obtain ⟨r₂, hkept₂, hr₂, hreg₂, hblocks₂, hsize₂⟩ := keepSize_ok hkept₁.sound hr₁ hreg₁ hset
    obtain ⟨hkept₃, hsize₃, hblocks₃, hcached⟩ := finishTruncate_ok hkept₂.sound hr₂ hreg₂ hrun
    have hall := ((htrim.keep hkept₁ hs).keep hkept₂ hs).keep hkept₃ hs
    refine ⟨hall.congr fun z => ?_, ?_, fun _ hacl => ?_, hcached⟩
    · rw [Dropped, if_pos h0]
    · rw [hsize₃, hsize₂, (htrim.keep hkept₁ hs).step.layout.hasLargeFile, h0]
      exact storedSize_congr (hreg₁.trans hreg.symm) 0
    · have htree : fs'.treeSize n = 0 := treeSize_of_none fun z hz hin => hall.gone z hz hin trivial
      have hzero : (r.clearBlocks.setBlocks 0).blocks = 0 := RawInode.get_put_self (by omega) (by decide)
      rw [hblocks₃, hblocks₂, hzero, Ext2Fs.blockCount, htree, hall.acl, if_pos hacl, Nat.add_zero, Nat.zero_mul,
        Nat.zero_mod]
  rw [if_neg h0] at hrun
  by_cases hge : fs.fileSize n ≤ newSize
  · rw [if_pos hge] at hrun
    obtain ⟨u₁, A₁, hset, hrun⟩ := bind_eq_ok hrun
    obtain ⟨r₁, hkept₁, hr₁, hreg₁, -, hsize₁⟩ := keepSize_ok hs hr hreg hset
    obtain ⟨hkept₂, hsize₂, -, hcached⟩ := finishTruncate_ok hkept₁.sound hr₁ hreg₁ hrun
    refine ⟨(hkept₁.trans hkept₂).trimmed hs fun z => ?_, hsize₂.trans hsize₁, fun hlt => by omega, hcached⟩
    rw [Dropped, if_neg h0, if_pos hge]
    exact not_false
  · rw [if_neg hge] at hrun
    obtain ⟨u₁, A₁, hclear, hrun⟩ := bind_eq_ok hrun
    obtain ⟨u₂, A₂, hprune, hrun⟩ := bind_eq_ok hrun
    obtain ⟨u₃, A₃, hset, hrun⟩ := bind_eq_ok hrun
    obtain ⟨u₄, A₄, hcount, hrun⟩ := bind_eq_ok hrun
    obtain ⟨htrim, r₂, hr₂, hsame⟩ := (cutTail_ok hs hr hmaps hclear hprune).trimmed hs hr
    have hreg₂ := hsame.fmt.trans hreg
    obtain ⟨r₃, hkept₃, hr₃, hreg₃, -, hsize₃⟩ := keepSize_ok htrim.sound hr₂ hreg₂ hset
    have hA₄ := recomputeIBlocks_ok hkept₃.sound hr₃ (RawInode.mapsBlocks_of_regular hreg₃ _) hcount
    obtain ⟨hkept₄, hsize₄, hreg₄⟩ := keepBlocks_ok hkept₃.sound hr₃ hreg₃ (A₃.blockCount n * A₃.sectors % 2 ^ 32)
    have hr₄ : A₄.inodeCache n = some (r₃.setBlocks (A₃.blockCount n * A₃.sectors % 2 ^ 32)) := by
      rw [hA₄]
      exact Function.update_self ..
    rw [← hA₄] at hkept₄ hsize₄
    obtain ⟨hkept₅, hsize₅, hblocks₅, hcached⟩ := finishTruncate_ok hkept₄.sound hr₄ hreg₄ hrun
    have hall := ((htrim.keep hkept₃ hs).keep hkept₄ hs).keep hkept₅ hs
    refine ⟨hall.congr fun z => ?_, ?_, fun _ _ => ?_, hcached⟩
    · rw [Dropped, if_neg h0, if_neg hge]
    · rw [hsize₅, hsize₄, hsize₃, htrim.step.layout.hasLargeFile]
      exact storedSize_congr hsame.fmt newSize
    · have hset : (r₃.setBlocks (A₃.blockCount n * A₃.sectors % 2 ^ 32)).blocks = A₃.blockCount n * A₃.sectors % 2 ^ 32 :=
        RawInode.get_put_self (by omega) (Nat.mod_lt _ (by decide))
      have hmap := (hkept₄.trans hkept₅).map
      rw [hblocks₅, hset, hmap.blockCount, hmap.layout.sectors]

/-- A size that a file can have is stored as it is. -/
theorem storedSize_of_le {large : Bool} {s : Nat} (h : s ≤ r.fileSize large) : storedSize large r s = s := by
  have hlow : r.size32 < 2 ^ 32 := leNat_lt
  have hhigh : r.dirAcl < 2 ^ 32 := leNat_lt
  unfold RawInode.fileSize at h
  unfold storedSize
  split
  · rename_i hbig
    rw [if_pos hbig, ← Nat.shiftLeft_add_eq_or_of_lt hlow, Nat.shiftLeft_eq] at h
    omega
  · rename_i hbig
    rw [if_neg hbig] at h
    omega

theorem lt_divCeil {a b q : Nat} (hb : 0 < b) : q < divCeil a b ↔ q * b < a := by
  rw [divCeil, ← Nat.succ_le_iff, Nat.le_div_iff_mul_le hb, Nat.succ_mul]
  omega

theorem divCeil_mono {a a' b : Nat} (h : a ≤ a') : divCeil a b ≤ divCeil a' b := Nat.div_le_div_right (by omega)

/-- A shrinking call with all data below the old size cuts off what leads to no data below the new one. -/
theorem dropped_iff (hbelow : ∀ q, fs.blockAt n q ≠ 0 → q * fs.blockSize < fs.fileSize n)
    (hcount : divCeil (fs.fileSize n) fs.blockSize < 2 ^ 32) {newSize : Nat} (hlt : newSize < fs.fileSize n)
    (z : (Nat × Nat) × List Nat) : Dropped fs n newSize z ↔
      ¬ ∃ q < divCeil newSize fs.blockSize, fs.blockAt n q ≠ 0 ∧ Under z (spotOf (fs.blockSize / 4) n q) := by
  have hbs := blockSize_pos fs
  have hkeep : divCeil newSize fs.blockSize ≤ divCeil (fs.fileSize n) fs.blockSize := divCeil_mono (Nat.le_of_lt hlt)
  unfold Dropped
  by_cases h0 : newSize = 0
  · rw [if_pos h0, true_iff]
    rintro ⟨q, hq, -⟩
    rw [h0, lt_divCeil hbs] at hq
    omega
  · rw [if_neg h0, if_neg (by omega), Tail, Nat.mod_eq_of_lt hcount, Nat.mod_eq_of_lt (by omega)]
    refine not_congr (exists_congr fun q => and_congr_left fun ⟨hne, _⟩ => or_iff_left fun hge => ?_)
    have hq := (lt_divCeil hbs).2 (hbelow q hne)
    omega

section Shrinking

variable {keep : Nat} (htrim : Trimmed P n (fun z => ¬ ∃ q < keep, fs.blockAt n q ≠ 0 ∧
  Under z (spotOf (fs.blockSize / 4) n q)) fs fs')

include htrim

/-- The data blocks below the cut stay. -/
theorem blockAt_of_shrunk (q : Nat) : fs'.blockAt n q = if q < keep then fs.blockAt n q else 0 := by
  by_cases hdrop : ∃ q' < keep, fs.blockAt n q' ≠ 0 ∧ Under (spotOf (fs.blockSize / 4) n q) (spotOf (fs.blockSize / 4) n q')
  · rw [htrim.blockAt_stay (not_not.2 hdrop)]
    obtain ⟨q', hq', -, hunder⟩ := hdrop
    rw [if_pos (under_spotOf fs hunder ▸ hq')]
  · rw [htrim.blockAt_gone hdrop]
    split
    · rename_i hq
      by_contra hne
      exact hdrop ⟨q, hq, Ne.symm hne, .refl _⟩
    · rfl

theorem leads_of_shrunk {x : (Nat × Nat) × List Nat} (hx : x.1.1 = n) : fs'.pointers.Leads x ↔
    ∃ q < keep, fs.blockAt n q ≠ 0 ∧ Under x (spotOf (fs.blockSize / 4) n q) := by
  rw [leads_iff_blockAt, hx, htrim.step.layout.blockSize]
  refine exists_congr fun q => ?_
  rw [blockAt_of_shrunk htrim]
  split
  · rename_i hq
    exact (and_iff_right hq).symm
  · rename_i hq
    simp [hq]

/-- What is freed: data blocks behind the cut, and indirect blocks that lead to no data any more. -/
theorem allocated_of_shrunk (b : Nat) : fs'.Allocated .block b ↔ fs.Allocated .block b ∧
    ¬ (b ≠ 0 ∧ ∃ q, keep ≤ q ∧ fs.blockAt n q = b) ∧
    ¬ ∃ x, x.1.1 = n ∧ fs.pointers.Inner x ∧ fs.pointers.node x = b ∧ ¬ fs'.pointers.Leads x := by
  rw [htrim.allocated, ← not_or]
  refine and_congr_right fun _ => not_congr ?_
  constructor
  · rintro ⟨hb, z, hz, hin, hnode, hdrop⟩
    have hne : fs.pointers.node z ≠ 0 := by rw [hnode]; exact hb
    rcases Nat.lt_or_eq_of_le hin with hlen | hlen
    · exact .inr ⟨z, hz, ⟨hlen, hne⟩, hnode, by rwa [leads_of_shrunk htrim hz]⟩
    · obtain ⟨q, hq⟩ := exists_blockAt hlen hne
      rw [hz] at hq
      have hnode' : fs.blockAt n q = b := by rw [Ext2Fs.blockAt, ← hq, hnode]
      refine .inl ⟨hb, q, Nat.le_of_not_lt fun hlt => hdrop ⟨q, hlt, by rw [hnode']; exact hb, ?_⟩, hnode'⟩
      rw [← hq]
      exact .refl _
  · rintro (⟨hb, q, hq, hnode⟩ | ⟨x, hx, hin, hnode, hleads⟩)
    · refine ⟨hb, _, spotOf_fst _ n q, inside_spotOf fs n q, hnode, ?_⟩
      rintro ⟨q', hq', -, hunder⟩
      have := under_spotOf fs hunder
      omega
    · rw [leads_of_shrunk htrim hx] at hleads
      exact ⟨hnode ▸ hin.2, x, hx, hin.inside, hnode, hleads⟩

end Shrinking

/-- **A shrinking `truncate` frees exactly the tail.** -/
theorem truncate_frees_tail (h : fs.Sound fun _ => False) (hr : fs.inodeCache n = some r) (hreg : r.fmt = EXT2_S_IFREG)
    (hacl : r.fileAcl = 0) (hbelow : ∀ q, fs.blockAt n q ≠ 0 → q * fs.blockSize < fs.fileSize n)
    (hcount : divCeil (fs.fileSize n) fs.blockSize < 2 ^ 32) {newSize : Nat} (hlt : newSize < fs.fileSize n) {u : PUnit}
    (hrun : truncate n newSize fs = .ok u fs') :
    (∀ j < newSize, fs'.content n j = fs.content n j) ∧
      (∀ q, fs'.blockAt n q = if q < divCeil newSize fs.blockSize then fs.blockAt n q else 0) ∧
      (∀ b, fs'.Allocated .block b ↔ fs.Allocated .block b ∧
        ¬ (b ≠ 0 ∧ ∃ q, divCeil newSize fs.blockSize ≤ q ∧ fs.blockAt n q = b) ∧
        ¬ ∃ x, x.1.1 = n ∧ fs.pointers.Inner x ∧ fs.pointers.node x = b ∧ ¬ fs'.pointers.Leads x) ∧
      fs'.fileSize n = newSize ∧
      (fs.blockCount n * fs.sectors < 2 ^ 32 → (fs'.inode n).blocks = fs'.blockCount n * fs'.sectors) := by
  have hbs := blockSize_pos fs
  obtain ⟨r', hr', hrun⟩ := raw_bind_ok hrun
  rw [hr, Option.some.injEq] at hr'
  subst hr'
  rw [if_neg (not_not.2 hreg)] at hrun
  obtain ⟨htrim, hsize, hblocks, -⟩ := truncateTo_ok h hr hreg hrun
  have htrim := htrim.congr (dropped_iff hbelow hcount hlt)
  have hat := blockAt_of_shrunk htrim
  refine ⟨fun j hj => ?_, hat, allocated_of_shrunk htrim, ?_, fun hfits => ?_⟩
  · have hq : j / fs.blockSize < divCeil newSize fs.blockSize := by
      rw [lt_divCeil hbs]
      exact Nat.lt_of_le_of_lt (Nat.div_mul_le_self ..) hj
    unfold Ext2Fs.content
    rw [htrim.step.layout.blockSize, htrim.blockData (by rw [hat, if_pos hq])]
  · rw [hsize]
    refine storedSize_of_le (Nat.le_of_lt ?_)
    rwa [← fileSize_of_cached hr]
  · have hslot := h.cached n r hr
    have hnone : fs.acl n = 0 := by
      show (if fs.IsSlot n then _ else 0) = 0
      rw [if_pos hslot, inode_of_cached hr, hacl]
    have hle := Nat.mul_le_mul_right fs.sectors htrim.blockCount_le
    rw [hblocks hlt hnone, htrim.step.layout.sectors, Nat.mod_eq_of_lt (by omega)]

end Trim

/-- Inode 1 has no blocks but in the words 11 and 12 of `i_block`, the second with its first pointer only. -/
def endsAtTwelve (fs : Ext2Fs) : Bool :=
  match fs.inodeCache 1 with
  | some r => (List.range 15).all (fun k => k = 11 || k = 12 || r.block k = 0) &&
      (List.range 256).all (fun i => i = 0 || leNat (fs.disk (r.block 12)) (i * 4) 4 = 0) && decide (r.fileAcl = 0)
  | none => false

theorem endsAtTwelve_spec {fs : Ext2Fs} {r : RawInode} (h : endsAtTwelve fs = true) (hr : fs.inodeCache 1 = some r)
    (hslot : fs.IsSlot 1) (hreg : r.fmt = EXT2_S_IFREG) (hbs : fs.blockSize = 1024) :
    r.fileAcl = 0 ∧ ∀ q, fs.blockAt 1 q ≠ 0 → q ≤ 12 := by
  rw [endsAtTwelve, hr] at h
  simp only [Bool.and_eq_true, List.all_eq_true, List.mem_range, Bool.or_eq_true, decide_eq_true_eq] at h
  obtain ⟨⟨hwords, hptrs⟩, hacl⟩ := h
  refine ⟨hacl, fun q hne => ?_⟩
  have hroot : ∀ k, k < 15 → fs.pointers.root (1, k) = r.block k := fun k =>
    root_of_cached hr hslot (RawInode.mapsBlocks_of_regular hreg _)
  have hbounds := bounds_of_node _ hne
  have htop := Pointers.node_ne_zero_of_under (under_root _) hne
  rw [show (spotOf (fs.blockSize / 4) 1 q).1 = (1, (spotOf (fs.blockSize / 4) 1 q).1.2) from Prod.ext (spotOf_fst ..) rfl,
    Pointers.node_root, hroot _ hbounds.2.1] at htop
  have hword := hwords _ hbounds.2.1
  simp only [htop, or_false] at hword
  by_cases h₁ : q < DIRECT_BLOCKS
  · exact Nat.le_of_lt h₁
  by_cases h₂ : q < DIRECT_BLOCKS + fs.blockSize / 4
  · rw [Ext2Fs.blockAt, spotOf_single h₁ h₂, Pointers.node_below, Pointers.node_root, hroot 12 (by decide)] at hne
    have hptr : leNat (fs.disk (r.block 12)) ((q - DIRECT_BLOCKS) * 4) 4 ≠ 0 := by
      rw [← show fs.pointers.child (r.block 12) (q - DIRECT_BLOCKS) = _ from if_pos (by omega)]
      exact fun h0 => hne (by rw [h0, ite_self])
    rcases hptrs (q - DIRECT_BLOCKS) (by omega) with h | h
    · exact Nat.sub_eq_zero_iff_le.1 h
    · exact absurd h hptr
  · exfalso
    unfold spotOf at hword
    dsimp only at hword
    rw [if_neg h₁, if_neg h₂] at hword
    split at hword <;> simp at hword

/-- The second of two blocks goes, with the indirect block that leads to it. -/
theorem truncate_frees_tail_fileImage : ∃ fs fs', truncate 1 12284 fs = .ok ⟨⟩ fs' ∧ fs'.fileSize 1 = 12284 ∧
    fs'.blockAt 1 12 = 0 ∧ fs'.blockAt 1 11 = fs.blockAt 1 11 := by
  obtain ⟨count, fs, hwrite, hp⟩ := exists_of_endsIn (writeAtLocked 1 12286 (fun _ => 7) 4) fileImage
    (p := fun _ fs => endsAtTwelve fs && succeeds (truncate 1 12284 fs)) (by decide +kernel)
  rw [Bool.and_eq_true] at hp
  obtain ⟨u, fs', hrun⟩ := exists_of_succeeds _ _ hp.2
  obtain ⟨⟨k, fs₁, hwrote, hkept⟩, -, hsize, -⟩ := writeAtLocked_ok fileImage_sound rfl (.inl (by decide)) (by decide) (by decide) hwrite
  have hsize : fs.fileSize 1 = 12290 := by
    rw [hsize]
    decide
  have hbs : fs.blockSize = 1024 := by
    rw [hkept.step.layout.blockSize, hwrote.extended.layout.blockSize]
    rfl
  obtain ⟨r, hr, hreg⟩ : ∃ r, fs.inodeCache 1 = some r ∧ r.fmt = EXT2_S_IFREG := by
    obtain ⟨r, hr, hrun⟩ := raw_bind_ok hrun
    refine ⟨r, hr, by_contra fun hreg => ?_⟩
    rw [if_pos hreg] at hrun
    cases hrun
  obtain ⟨hacl, hbelow⟩ := endsAtTwelve_spec hp.1 hr (hkept.sound.cached 1 r hr) hreg hbs
  have htail := truncate_frees_tail hkept.sound hr hreg hacl
    (fun q hne => by rw [hbs, hsize]; have := hbelow q hne; omega) (by rw [hsize, hbs]; decide)
    (by rw [hsize]; decide) hrun
  rw [hbs] at htail
  obtain ⟨-, hat, -, hsize', -⟩ := htail
  exact ⟨fs, fs', hrun, hsize', hat 12, hat 11⟩

end Koros.Ext2
