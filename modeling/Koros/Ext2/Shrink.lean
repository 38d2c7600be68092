import Koros.Ext2.Content

/-!
# Shrinking a block tree

`free_and_clear_logical` and `prune_empty_indirects` of `kor-ext2/src/inode.rs`. All of them mark a block
as free before the pointer to it is cleared. Marks only touch the bitmaps and pointers never do, so a state on the way is
taken apart: pointers were cleared (`Cut`), and the blocks of a list were marked as free (`Ext2Fs.markFree`).

- `Ext2Fs.Sound.cut`: what a cut leaves; `Ext2Fs.Sound.cut_free`: the same when the blocks cut off are marked;
- `freeAndClearLogical_ok`, `pruneIndirect_ok`, `pruneEmptyIndirects_ok`: what the calls cut off.
-/
set_option autoImplicit false

namespace Koros.Ext2

open Koros.Lib Xattr
open Pointers (below Under)

/-! ## Marking a list of blocks -/

/-- The blocks of a list are marked as free. -/
def Ext2Fs.markFree (fs : Ext2Fs) (l : List Nat) : Ext2Fs := l.foldl (fun fs b => fs.mark .block b false) fs

section MarkFree

variable {fs : Ext2Fs} {l l' : List Nat} {n b c : Nat}

@[simp] theorem markFree_nil (fs : Ext2Fs) : fs.markFree [] = fs := rfl

theorem markFree_cons (fs : Ext2Fs) (b : Nat) (l : List Nat) :
    fs.markFree (b :: l) = (fs.mark .block b false).markFree l := rfl

theorem markFree_append (fs : Ext2Fs) (l l' : List Nat) : fs.markFree (l ++ l') = (fs.markFree l).markFree l' :=
  List.foldl_append ..

theorem mark_markFree (fs : Ext2Fs) (l : List Nat) (b : Nat) :
    (fs.markFree l).mark .block b false = fs.markFree (l ++ [b]) := (markFree_append fs l [b]).symm

theorem sameLayout_markFree (fs : Ext2Fs) (l : List Nat) : SameLayout fs (fs.markFree l) := by
  induction l generalizing fs with
  | nil => exact .refl fs
  | cons b l ih => exact (sameLayout_mark fs .block b false).trans (ih _)

theorem inodeCache_markFree (fs : Ext2Fs) (l : List Nat) : (fs.markFree l).inodeCache = fs.inodeCache := by
  induction l generalizing fs with
  | nil => rfl
  | cons b l ih => exact (ih _).trans (mark_frame fs .block b false).2.2

theorem disk_markFree (hb : ¬ fs.IsBitmap b) (l : List Nat) : (fs.markFree l).disk b = fs.disk b := by
  induction l generalizing fs with
  | nil => rfl
  | cons c l ih =>
    have hb' : ¬ (fs.mark .block c false).IsBitmap b := by
      rw [(sameLayout_mark fs .block c false).isBitmap]
      exact hb
    exact (ih hb').trans (disk_mark false hb)

/-- Marks and inodes in memory are apart. -/
theorem setInode_markFree (fs : Ext2Fs) (l : List Nat) (n : Nat) (o : Option RawInode) :
    (fs.markFree l).setInode n o = (fs.setInode n o).markFree l := by
  have hone : ∀ (fs : Ext2Fs) (b : Nat), (fs.mark .block b false).setInode n o = (fs.setInode n o).mark .block b false := by
    intro fs b
    unfold Ext2Fs.mark Ext2Fs.setInode
    dsimp only
    split <;> rfl
  induction l generalizing fs with
  | nil => rfl
  | cons b l ih => rw [markFree_cons, markFree_cons, ih, hone]

/-- So are marks and blocks that are no bitmaps. -/
theorem setDisk_markFree (hc : ¬ fs.IsBitmap c) (l : List Nat) (buf : Bytes) :
    (fs.markFree l).setDisk c buf = (fs.setDisk c buf).markFree l := by
  have hone : ∀ (fs : Ext2Fs) (b : Nat), ¬ fs.IsBitmap c →
      (fs.mark .block b false).setDisk c buf = (fs.setDisk c buf).mark .block b false := by
    intro fs b hc
    cases hg : fs.blockGroups[fs.superBlock.groupOf .block b]? with
    | none =>
      have hg' : (fs.setDisk c buf).blockGroups[(fs.setDisk c buf).superBlock.groupOf .block b]? = none := hg
      rw [Ext2Fs.mark, hg, Ext2Fs.mark, hg']
    | some bg =>
      have hne : bg.bitmap .block ≠ c := by
        rintro rfl
        exact hc ⟨bg.places, List.mem_map_of_mem (List.mem_of_getElem? hg), .inl rfl⟩
      have hg' : (fs.setDisk c buf).blockGroups[(fs.setDisk c buf).superBlock.groupOf .block b]? = some bg := hg
      rw [Ext2Fs.mark, hg, Ext2Fs.mark, hg']
      simp only [Ext2Fs.setDisk, Function.update_of_ne hne]
      rw [Function.update_comm hne]
  induction l generalizing fs with
  | nil => rfl
  | cons b l ih =>
    have hc' : ¬ (fs.mark .block b false).IsBitmap c := by
      rw [(sameLayout_mark fs .block b false).isBitmap]
      exact hc
    rw [markFree_cons, markFree_cons, ih hc', hone fs b hc]

theorem allocated_markFree (hG : fs.Geometry) (hl : ∀ b ∈ l, fs.superBlock.InRange .block b) (k : Kind) (c : Nat) :
    (fs.markFree l).Allocated k c ↔ fs.Allocated k c ∧ ¬ (k = .block ∧ c ∈ l) := by
  induction l generalizing fs with
  | nil => simp
  | cons b l ih =>
    have hlay := sameLayout_mark fs .block b false
    rw [markFree_cons, ih (hlay.geometry hG) fun d hd => (hlay.inRange .block d).2 (hl d (List.mem_cons_of_mem _ hd)),
      allocated_mark hG (hl b (List.mem_cons_self ..)), List.mem_cons]
    by_cases hkc : k = .block ∧ c = b
    · simp [hkc]
    · rw [if_neg hkc]
      tauto

theorem inode_markFree (hp : fs.Placed) (l : List Nat) (hn : fs.IsSlot n) : (fs.markFree l).inode n = fs.inode n := by
  unfold Ext2Fs.inode
  rw [inodeCache_markFree]
  congr 1
  refine diskInode_congr (sameLayout_markFree fs l) fun c off hplace j _ => ?_
  obtain ⟨c', off', hplace', htable, -⟩ := tablePlace_spec hp hn
  rw [hplace, Option.some.injEq, Prod.mk.injEq] at hplace'
  rw [disk_markFree (hp.tables c (hplace'.1 ▸ htable)).2]

theorem sameMap_markFree {P : Nat → Prop} (h : fs.Sound P) (l : List Nat) : SameMap fs (fs.markFree l) where
  layout := sameLayout_markFree fs l
  root := fun n hn _ => by rw [inode_markFree h.toPlaced l hn]
  fileAcl := fun n hn => by rw [inode_markFree h.toPlaced l hn]
  inner := fun x hx => disk_markFree (h.tree x hx.inside hx.2).not_bitmap l

end MarkFree

/-! ## Cutting off a part of the trees of an inode -/

/-- Pointers of inode `n` were cleared, in its words of `i_block` and in its indirect blocks. -/
structure Cut (n : Nat) (fs fs' : Ext2Fs) : Prop where
  layout : SameLayout fs fs'
  cache : ∀ m, m ≠ n → fs'.inodeCache m = fs.inodeCache m
  fields : ∀ r, fs.inodeCache n = some r → ∃ r', fs'.inodeCache n = some r' ∧ RawInode.SameFields r r'
  disk : ∀ b, (∀ x, x.1.1 = n → fs.pointers.Inner x → fs.pointers.node x ≠ b) → fs'.disk b = fs.disk b
  node : ∀ x, x.1.1 = n → fs.pointers.Inside x → fs'.pointers.node x = fs.pointers.node x ∨ fs'.pointers.node x = 0

/-- A block that was cut off. -/
def Lost (n : Nat) (fs fs' : Ext2Fs) (b : Nat) : Prop :=
  b ≠ 0 ∧ ∃ x, x.1.1 = n ∧ fs.pointers.Inside x ∧ fs.pointers.node x = b ∧ fs'.pointers.node x = 0

namespace Cut

variable {fs fs' fs'' : Ext2Fs} {P : Nat → Prop} {n : Nat} {r : RawInode}

theorem refl (n : Nat) (fs : Ext2Fs) : Cut n fs fs :=
  ⟨.refl fs, fun _ _ => rfl, fun r hr => ⟨r, hr, .refl r⟩, fun _ _ => rfl, fun _ _ _ => .inl rfl⟩

theorem not_lost_self (n : Nat) (fs : Ext2Fs) (b : Nat) : ¬ Lost n fs fs b := by
  rintro ⟨hb, x, -, -, hx, h0⟩
  exact hb (hx.symm.trans h0)

theorem trans (h : Cut n fs fs') (h' : Cut n fs' fs'') : Cut n fs fs'' where
  layout := h.layout.trans h'.layout
  cache := fun m hm => (h'.cache m hm).trans (h.cache m hm)
  fields := fun r hr => by
    obtain ⟨r₁, hr₁, h₁⟩ := h.fields r hr
    obtain ⟨r₂, hr₂, h₂⟩ := h'.fields r₁ hr₁
    exact ⟨r₂, hr₂, h₁.trans h₂⟩
  disk := fun b hb => by
    refine (h'.disk b fun x hx hin heq => ?_).trans (h.disk b hb)
    have hnode := (h.node x hx hin.inside).resolve_right hin.2
    exact hb x hx ⟨hin.1, by rw [← hnode]; exact hin.2⟩ (hnode ▸ heq)
  node := fun x hx hin => by
    rcases h'.node x hx hin with h₂ | h₂
    · rw [h₂]
      exact h.node x hx hin
    · exact .inr h₂

theorem lost_trans (h : Cut n fs fs') (h' : Cut n fs' fs'') (b : Nat) :
    Lost n fs fs'' b ↔ Lost n fs fs' b ∨ Lost n fs' fs'' b := by
  constructor
  · rintro ⟨hb, x, hx, hin, hxb, h0⟩
    rcases h.node x hx hin with h₁ | h₁
    · exact .inr ⟨hb, x, hx, hin, h₁.trans hxb, h0⟩
    · exact .inl ⟨hb, x, hx, hin, hxb, h₁⟩
  · rintro (⟨hb, x, hx, hin, hxb, h0⟩ | ⟨hb, x, hx, hin, hxb, h0⟩)
    · refine ⟨hb, x, hx, hin, hxb, ?_⟩
      rcases h'.node x hx hin with h₂ | h₂
      · exact h₂.trans h0
      · exact h₂
    · have hnode := (h.node x hx hin).resolve_right (by rw [hxb]; exact hb)
      exact ⟨hb, x, hx, hin, hnode.symm.trans hxb, h0⟩

variable (h : Cut n fs fs') (hs : fs.Sound P)

include h hs

/-- Only indirect blocks are written. -/
theorem disk_of_not_data {b : Nat} (hb : ¬ fs.IsData b) : fs'.disk b = fs.disk b :=
  h.disk b fun x _ hin heq => hb (heq ▸ hs.tree x hin.inside hin.2)

theorem inode {m : Nat} (hm : m ≠ n) (hslot : fs.IsSlot m) : fs'.inode m = fs.inode m := by
  unfold Ext2Fs.inode
  rw [h.cache m hm, diskInode_of_data (W := fs.IsData) hs h.layout (fun _ hb => hb)
    (fun b hb => h.disk_of_not_data hs hb) hslot]

/-- The trees of the other inodes. -/
theorem nodes {x : (Nat × Nat) × List Nat} (hx : x.1.1 ≠ n) (hin : fs.pointers.Inside x) :
    fs'.pointers.node x = fs.pointers.node x := by
  refine Pointers.node_congr ?_ (fun p hp i => h.layout.child (h.disk _ fun y hy hy' heq => hx ?_) i) hin
  · show (if fs'.IsSlot x.1.1 then _ else 0) = if fs.IsSlot x.1.1 then _ else 0
    by_cases hslot : fs.IsSlot x.1.1
    · rw [if_pos (h.layout.isSlot ▸ hslot), if_pos hslot, h.inode hs hx hslot, h.layout.sectors]
    · rw [if_neg (h.layout.isSlot ▸ hslot), if_neg hslot]
  · have := hs.unique y (x.1, p) hy'.inside hp.inside hy'.2 heq
    rw [← hy, this]

/-- A block at the lowest level is not written. -/
theorem leaf {x : (Nat × Nat) × List Nat} (hx : x.2.length = fs.pointers.depth x.1) (hne : fs.pointers.node x ≠ 0) :
    fs'.disk (fs.pointers.node x) = fs.disk (fs.pointers.node x) := by
  refine h.disk _ fun y _ hin heq => ?_
  have := hs.unique y x hin.inside (Nat.le_of_eq hx) hin.2 heq
  subst this
  exact absurd hin.1 (by omega)

theorem step : Step n fs fs' where
  layout := h.layout
  inodes := fun m => h.layout.allocated (fun b hb => h.disk_of_not_data hs fun hd => hd.not_bitmap hb) .inode m
  cache := h.cache
  onDisk := fun m _ hslot => diskInode_of_data (W := fs.IsData) hs h.layout (fun _ hb => hb)
    (fun b hb => h.disk_of_not_data hs hb) hslot
  nodes := fun x hx hin => h.nodes hs hx hin
  bytes := fun x hx hin hne => h.disk _ fun y hy hy' heq => hx (by rw [← hy, hs.unique y x hy'.inside hin hy'.2 heq])
  attrs := fun m _ hne j _ => by rw [h.disk _ fun y _ hy heq => (hs.attr m hne).2 y hy.inside heq]

theorem refers (hacl : fs'.acl = fs.acl) (b : Nat) :
    fs'.Refers b ↔ fs.Refers b ∧ ¬ Lost n fs fs' b := by
  unfold Ext2Fs.Refers
  rw [hacl]
  constructor
  · rintro ⟨hb, ⟨x, hin, hx⟩ | ⟨m, hm⟩⟩
    · have hnode : fs.pointers.node x = b := by
        by_cases hxn : x.1.1 = n
        · rw [← (h.node x hxn hin).resolve_right (by rw [hx]; exact hb)]
          exact hx
        · rw [← h.nodes hs hxn hin]
          exact hx
      refine ⟨⟨hb, .inl ⟨x, hin, hnode⟩⟩, ?_⟩
      rintro ⟨-, y, -, hy, hyb, h0⟩
      have := hs.unique y x hy hin (by rw [hyb]; exact hb) (hyb.trans hnode.symm)
      subst this
      exact hb (hx.symm.trans h0)
    · refine ⟨⟨hb, .inr ⟨m, hm⟩⟩, ?_⟩
      rintro ⟨-, y, -, hy, hyb, -⟩
      exact (hs.attr m (by rw [hm]; exact hb)).2 y hy (hyb.trans hm.symm)
  · rintro ⟨⟨hb, ⟨x, hin, hx⟩ | hm⟩, hlost⟩
    · refine ⟨hb, .inl ⟨x, hin, ?_⟩⟩
      by_cases hxn : x.1.1 = n
      · refine ((h.node x hxn hin).resolve_right fun h0 => hlost ⟨hb, x, hxn, hin, hx, h0⟩).trans hx
      · exact (h.nodes hs hxn hin).trans hx
    · exact ⟨hb, .inr hm⟩

end Cut

section Sound

variable {fs fs' : Ext2Fs} {P : Nat → Prop} {n : Nat} {r : RawInode} {l : List Nat}

theorem Cut.acl (h : Cut n fs fs') (hs : fs.Sound P) (hr : fs.inodeCache n = some r) : fs'.acl = fs.acl := by
  funext m
  show (if fs'.IsSlot m then (fs'.inode m).fileAcl else 0) = if fs.IsSlot m then _ else 0
  by_cases hslot : fs.IsSlot m
  · rw [if_pos (h.layout.isSlot ▸ hslot), if_pos hslot]
    by_cases hm : m = n
    · obtain ⟨r', hr', hsame⟩ := h.fields r hr
      rw [hm, inode_of_cached hr', inode_of_cached hr, hsame.fileAcl]
    · rw [h.inode hs hm hslot]
  · rw [if_neg (h.layout.isSlot ▸ hslot), if_neg hslot]

/-- **What a cut leaves**: the blocks cut off are held back. -/
theorem Ext2Fs.Sound.cut (hs : fs.Sound P) (h : Cut n fs fs') (hr : fs.inodeCache n = some r) :
    fs'.Sound fun b => P b ∨ Lost n fs fs' b := by
  have hacl := h.acl hs hr
  have hbits : ∀ b, fs.IsBitmap b → fs'.disk b = fs.disk b :=
    fun b hb => h.disk_of_not_data hs fun hd => hd.not_bitmap hb
  have hnode : ∀ x, fs.pointers.Inside x → fs'.pointers.node x = fs.pointers.node x ∨ fs'.pointers.node x = 0 := by
    intro x hin
    by_cases hx : x.1.1 = n
    · exact h.node x hx hin
    · exact .inl (h.nodes hs hx hin)
  have hrefers := h.refers hs hacl
  refine hs.rebuild h.layout hacl (fun m r' hm => ?_) (fun m hm => h.disk _ fun x _ hin heq => ?_)
    (hs.unique.congr (fun x => inside_iff fs fs' x) hnode) (fun x hin hne => ?_) (fun b hb hin => ?_) (fun b hb => ?_)
    fun b hb => ?_
  · by_cases hmn : m = n
    · rw [hmn]
      exact hs.cached n r hr
    · rw [h.cache m hmn] at hm
      exact hs.cached m r' hm
  · exact (hs.attr m hm).2 x hin.inside heq
  · have hsame := (hnode x hin).resolve_right hne
    rw [hsame] at hne ⊢
    exact ⟨hs.tree x hin hne, fun m hm => (hs.attr m hm).2 x hin⟩
  · rw [h.layout.allocated hbits]
    exact hs.metadata b hb hin
  · rw [h.layout.allocated hbits, hs.used b hb, hrefers]
    have hlost : Lost n fs fs' b → fs.Refers b := by
      rintro ⟨hb0, x, -, hin, hxb, -⟩
      exact ⟨hb0, .inl ⟨x, hin, hxb⟩⟩
    tauto
  · rw [hrefers]
    rcases hb with hb | hb
    · exact ⟨(hs.pending b hb).1, fun hno => (hs.pending b hb).2 hno.1⟩
    · refine ⟨?_, fun hno => hno.2 hb⟩
      obtain ⟨hb0, x, -, hin, hxb, -⟩ := hb
      exact hxb ▸ hs.tree x hin (by rw [hxb]; exact hb0)

theorem Lost.refers {b : Nat} (h : Lost n fs fs' b) : fs.Refers b := by
  obtain ⟨hb0, x, -, hin, hxb, -⟩ := h
  exact ⟨hb0, .inl ⟨x, hin, hxb⟩⟩

theorem step_markFree (hs : fs.Sound P) (hl : ∀ b ∈ l, fs.superBlock.InRange .block b) (n : Nat) :
    Step n fs (fs.markFree l) where
  layout := sameLayout_markFree ..
  inodes := fun m => by
    rw [allocated_markFree hs.geometry hl]
    simp
  cache := fun m _ => by rw [inodeCache_markFree]
  onDisk := fun m _ hslot => by
    refine diskInode_congr (sameLayout_markFree fs l) fun c off hplace j _ => ?_
    obtain ⟨c', off', hplace', htable, -⟩ := tablePlace_spec hs.toPlaced hslot
    rw [hplace, Option.some.injEq, Prod.mk.injEq] at hplace'
    rw [disk_markFree (hs.tables c (hplace'.1 ▸ htable)).2]
  nodes := fun x _ hin => (sameMap_markFree hs l).node hin
  bytes := fun x _ hin hne => disk_markFree (hs.tree x hin hne).not_bitmap l
  attrs := fun m _ hne j _ => by rw [disk_markFree (hs.attr m hne).1.not_bitmap l]

/-- **A cut with its blocks freed.** -/
theorem Ext2Fs.Sound.cut_free (hs : fs.Sound P) (h : Cut n fs fs') (hr : fs.inodeCache n = some r)
    (hl : ∀ b, b ∈ l ↔ Lost n fs fs' b) :
    (fs'.markFree l).Sound P ∧ Step n fs (fs'.markFree l) ∧
      ∀ b, (fs'.markFree l).Allocated .block b ↔ fs.Allocated .block b ∧ ¬ Lost n fs fs' b := by
  have hs' := hs.cut h hr
  have hin : ∀ b ∈ l, fs'.superBlock.InRange .block b := fun b hb => (hs'.pending b (.inr ((hl b).1 hb))).1.1
  have halloc : ∀ b, (fs'.markFree l).Allocated .block b ↔ fs'.Allocated .block b ∧ ¬ Lost n fs fs' b := by
    intro b
    rw [allocated_markFree hs'.geometry hin, ← hl b]
    simp
  have hmap := sameMap_markFree hs' l
  refine ⟨hs'.frame hmap ?_ ?_ ?_ ?_ ?_, (h.step hs).trans (step_markFree hs' hin n), fun b => ?_⟩
  · rw [inodeCache_markFree]
    exact hs'.cached
  · exact fun m hm => disk_markFree (hs'.attr m hm).1.not_bitmap l
  · intro b hb hrange
    rw [halloc]
    exact ⟨hs'.metadata b hb hrange, fun hlost => (hs'.pending b (.inr hlost)).1.2 hb⟩
  · intro b hb
    have hP : P b → ¬ Lost n fs fs' b := fun hP hlost => (hs.pending b hP).2 hlost.refers
    have hR : fs'.Refers b → ¬ Lost n fs fs' b := fun hR hlost => (hs'.pending b (.inr hlost)).2 hR
    rw [halloc, hs'.used b hb]
    tauto
  · exact fun b hb => hs'.pending b (.inl hb)
  · rw [halloc, h.layout.allocated fun c hc => h.disk_of_not_data hs fun hd => hd.not_bitmap hc]

end Sound

/-! ## Clearing the pointer of a logical block -/

section Clear

variable {fs fs' fs'' A A' : Ext2Fs} {P : Nat → Prop} {n q : Nat} {r : RawInode} {M : List Nat}
  {C C' : (Nat × Nat) × List Nat → Prop} {y : (Nat × Nat) × List Nat}

/-- The spots in `C` were cut off. -/
structure Removed (n : Nat) (C : (Nat × Nat) × List Nat → Prop) (fs fs' : Ext2Fs) : Prop extends Cut n fs fs' where
  gone : ∀ z, z.1.1 = n → fs.pointers.Inside z → C z → fs'.pointers.node z = 0
  stay : ∀ z, z.1.1 = n → fs.pointers.Inside z → ¬ C z → fs'.pointers.node z = fs.pointers.node z

theorem Removed.refl (hC : ∀ z, z.1.1 = n → fs.pointers.Inside z → C z → fs.pointers.node z = 0) : Removed n C fs fs :=
  ⟨.refl n fs, hC, fun _ _ _ _ => rfl⟩

theorem Removed.trans (h : Removed n C fs fs') (h' : Removed n C' fs' fs'') :
    Removed n (fun z => C z ∨ C' z) fs fs'' where
  toCut := h.toCut.trans h'.toCut
  gone := fun z hz hin hC => by
    by_cases hC' : C' z
    · exact h'.gone z hz hin hC'
    · rw [h'.stay z hz hin hC']
      exact h.gone z hz hin (hC.resolve_right hC')
  stay := fun z hz hin hC => by
    rw [h'.stay z hz hin fun hc => hC (.inr hc)]
    exact h.stay z hz hin fun hc => hC (.inl hc)

theorem Removed.congr (h : Removed n C fs fs')
    (hC : ∀ z, z.1.1 = n → fs.pointers.Inside z → fs.pointers.node z ≠ 0 → (C z ↔ C' z)) : Removed n C' fs fs' where
  toCut := h.toCut
  gone := fun z hz hin hc => by
    by_cases h0 : fs.pointers.node z = 0
    · rcases h.node z hz hin with hnode | hnode
      · exact hnode.trans h0
      · exact hnode
    · exact h.gone z hz hin ((hC z hz hin h0).2 hc)
  stay := fun z hz hin hc => by
    by_cases h0 : fs.pointers.node z = 0
    · rcases h.node z hz hin with hnode | hnode
      · exact hnode
      · exact hnode.trans h0.symm
    · exact h.stay z hz hin fun hc' => hc ((hC z hz hin h0).1 hc')

theorem Removed.lost_iff (h : Removed n C fs fs') (b : Nat) :
    Lost n fs fs' b ↔ b ≠ 0 ∧ ∃ z, z.1.1 = n ∧ fs.pointers.Inside z ∧ fs.pointers.node z = b ∧ C z := by
  refine and_congr_right fun hb => exists_congr fun z => ?_
  refine and_congr_right fun hz => and_congr_right fun hin => and_congr_right fun hnode => ?_
  constructor
  · intro h0
    by_contra hC
    exact hb (hnode.symm.trans ((h.stay z hz hin hC).symm.trans h0))
  · exact h.gone z hz hin

/-- One pointer is cleared. -/
theorem removed_of_relinked (hrel : Relinked fs fs' y 0)
    (hcache : ∀ m, m ≠ n → fs'.inodeCache m = fs.inodeCache m)
    (hfields : ∀ r, fs.inodeCache n = some r → ∃ r', fs'.inodeCache n = some r' ∧ RawInode.SameFields r r')
    (hdisk : ∀ b, (∀ x, x.1.1 = n → fs.pointers.Inner x → fs.pointers.node x ≠ b) → fs'.disk b = fs.disk b) :
    Removed n (fun z => z = y) fs fs' := by
  refine ⟨⟨hrel.layout, hcache, hfields, hdisk, fun x _ hin => ?_⟩, fun z _ hin hz => ?_, fun z _ hin hz => ?_⟩
  · rw [hrel.node hin]
    split
    · exact .inr rfl
    · exact .inl rfl
  · rw [hrel.node hin, if_pos hz]
  · rw [hrel.node hin, if_neg hz]

theorem removed_setRoot (hs : fs.Sound P) (hr : fs.inodeCache n = some r) (hmaps : r.mapsBlocks fs.sectors = true) {k : Nat}
    (hk : k < 15) (hleaf : 12 ≤ k → r.block k ≠ 0 → ∀ i, fs.pointers.child (r.block k) i = 0) :
    Removed n (fun z => z = ((n, k), [])) fs (fs.setInode n (some (r.setBlock k 0))) := by
  refine removed_of_relinked (relinked_setRoot hs hr hmaps hk (by decide) hleaf fun h => absurd rfl h)
    (fun m hm => Function.update_of_ne hm ..) (fun r' hr' => ?_) fun _ _ => rfl
  rw [hr, Option.some.injEq] at hr'
  subst hr'
  exact ⟨_, Function.update_self .., RawInode.sameFields_setBlock hk⟩

theorem removed_setChild (hs : fs.Sound P) {x : (Nat × Nat) × List Nat} (hx : fs.pointers.Inner x) {i : Nat}
    (hi : i < fs.blockSize / 4)
    (hleaf : fs.pointers.Inner (below x i) → ∀ j, fs.pointers.child (fs.pointers.node (below x i)) j = 0) :
    Removed x.1.1 (fun z => z = below x i) fs
      (fs.setDisk (fs.pointers.node x) (putLe (fs.disk (fs.pointers.node x)) (i * 4) 4 0)) := by
  refine removed_of_relinked (relinked_setChild hs hx hi (by decide) hx.2.symm hleaf fun h => absurd rfl h)
    (fun _ _ => rfl) (fun r hr => ⟨r, hr, .refl r⟩) fun b hb => disk_setDisk_of_ne (fun heq => ?_) _
  exact hb x rfl hx heq.symm

/-- A call that cuts the spots in `C` off and marks the blocks there as free. -/
def Frees (n : Nat) (C : (Nat × Nat) × List Nat → Prop) (fs : Ext2Fs) (M : List Nat) (A' : Ext2Fs) : Prop :=
  ∃ fs' M', A' = fs'.markFree (M ++ M') ∧ Removed n C fs fs' ∧ ∀ b, b ∈ M' ↔ Lost n fs fs' b

theorem node_markFree (hs : fs.Sound P) (M : List Nat) {x : (Nat × Nat) × List Nat} (hx : fs.pointers.Inside x) :
    (fs.markFree M).pointers.node x = fs.pointers.node x := (sameMap_markFree hs M).node hx

/-- The pointers of a block, read between the marks. -/
theorem readEntry_ok (hs : fs.Sound P) {x : (Nat × Nat) × List Nat} (hx : fs.pointers.Inner x) {α : Type} {i : Nat}
    {f : Nat → FsM α} {a : α}
    (hrun : (readIndirectEntry (fs.pointers.node x) i >>= f) (fs.markFree M) = .ok a A') :
    f (fs.pointers.node (below x i)) (fs.markFree M) = .ok a A' := by
  obtain ⟨-, hrun⟩ := readIndirectEntry_bind_ok hrun
  rw [(sameMap_markFree hs M).layout.child ((sameMap_markFree hs M).inner x hx)] at hrun
  rw [Pointers.node_below_of_ne hx.2]
  exact hrun

/-- The last step: the entry of the lowest indirect block. -/
theorem clearEntry_ok (hs : fs.Sound P) {x : (Nat × Nat) × List Nat} (hx : x.2.length + 1 = fs.pointers.depth x.1)
    {i : Nat} {u : PUnit}
    (hrun : (if fs.pointers.node x ≠ 0 then writeIndirectEntry (fs.pointers.node x) i 0 else pure ⟨⟩) (fs.markFree M) =
      .ok u A') : ∃ fs', A' = fs'.markFree M ∧ Removed x.1.1 (fun z => z = below x i) fs fs' := by
  rcases when_ok hrun with ⟨hne, hrun⟩ | ⟨h0, hrun⟩
  · have hinner : fs.pointers.Inner x := ⟨by omega, hne⟩
    have hdata := hs.tree x hinner.inside hne
    obtain ⟨hi, hA'⟩ := writeIndirectEntry_ok hrun
    rw [(sameLayout_markFree fs M).blockSize] at hi
    rw [disk_markFree hdata.not_bitmap, setDisk_markFree hdata.not_bitmap] at hA'
    refine ⟨_, hA', removed_setChild hs hinner hi fun hin => ?_⟩
    have := hin.1
    simp only [below, List.length_append, List.length_singleton] at this
    omega
  · refine ⟨fs, hrun, .refl fun z _ _ hz => ?_⟩
    rw [hz, Pointers.node_below, if_pos (not_not.1 h0)]

/-- The pointer of a logical block is cleared, level by level. -/
theorem clearLogical_ok (hs : fs.Sound P) (hr : fs.inodeCache n = some r) (hmaps : r.mapsBlocks fs.sectors = true)
    {u : PUnit} (hrun : (do
      let p ← ptrsPerBlock
      let r ← raw n
      let indirectLimit := DIRECT_BLOCKS + p
      let doubleLimit := indirectLimit + p * p
      if q < DIRECT_BLOCKS then modifyRaw n fun r => r.setBlock q 0
      else if q < indirectLimit then
        if r.block 12 ≠ 0 then writeIndirectEntry (r.block 12) (q - DIRECT_BLOCKS) 0
      else if q < doubleLimit then
        if r.block 13 ≠ 0 then
          let rem := q - indirectLimit
          let l2 ← readIndirectEntry (r.block 13) (rem / p)
          if l2 ≠ 0 then writeIndirectEntry l2 (rem % p) 0
      else if r.block 14 ≠ 0 then
        let rem := q - doubleLimit
        let l2 ← readIndirectEntry (r.block 14) (rem / (p * p))
        if l2 ≠ 0 then
          let l3 ← readIndirectEntry l2 (rem / p % p)
          if l3 ≠ 0 then writeIndirectEntry l3 (rem % p) 0 : FsM Unit) (fs.markFree M) = .ok u A') :
    ∃ fs', A' = fs'.markFree M ∧ Removed n (fun z => z = spotOf (fs.blockSize / 4) n q) fs fs' := by
  have hslot := hs.cached n r hr
  have hroot : ∀ k, k < 15 → r.block k = fs.pointers.node ((n, k), []) := fun k hk =>
    (root_of_cached hr hslot hmaps hk).symm
  -- a pointer that is missing on the way down leaves the spot empty
  have hnone : ∀ {x : (Nat × Nat) × List Nat}, fs.pointers.node x = 0 → Under x (spotOf (fs.blockSize / 4) n q) →
      A' = fs.markFree M →
      ∃ fs', A' = fs'.markFree M ∧ Removed n (fun z => z = spotOf (fs.blockSize / 4) n q) fs fs' := by
    intro x h0 hunder hA
    refine ⟨fs, hA, .refl fun z _ _ hz => ?_⟩
    subst hz
    by_contra hne
    exact Pointers.node_ne_zero_of_under hunder hne h0
  rw [ptrsPerBlock_bind, (sameLayout_markFree fs M).blockSize] at hrun
  obtain ⟨r', hr', hrun⟩ := raw_bind_ok hrun
  rw [inodeCache_markFree, hr, Option.some.injEq] at hr'
  subst hr'
  dsimp only at hrun
  by_cases h₁ : q < DIRECT_BLOCKS
  · rw [if_pos h₁] at hrun
    obtain ⟨r', hr', hA⟩ := modifyRaw_ok hrun
    rw [inodeCache_markFree, hr, Option.some.injEq] at hr'
    subst hr'
    rw [setInode_markFree] at hA
    have hq : q < 15 := Nat.lt_trans h₁ (by decide)
    refine ⟨_, hA, ?_⟩
    rw [show spotOf (fs.blockSize / 4) n q = ((n, q), []) from if_pos h₁]
    exact removed_setRoot hs hr hmaps hq fun h12 => absurd h₁ (Nat.not_lt.2 h12)
  rw [if_neg h₁] at hrun
  by_cases h₂ : q < DIRECT_BLOCKS + fs.blockSize / 4
  · rw [if_pos h₂, hroot 12 (by omega)] at hrun
    rw [spotOf_single h₁ h₂]
    exact clearEntry_ok hs (x := ((n, 12), [])) rfl hrun
  rw [if_neg h₂] at hrun
  by_cases h₃ : q < DIRECT_BLOCKS + fs.blockSize / 4 + fs.blockSize / 4 * (fs.blockSize / 4)
  · rw [if_pos h₃, hroot 13 (by omega)] at hrun
    rw [spotOf_double h₁ h₂ h₃] at hnone ⊢
    rcases when_ok hrun with ⟨hne, hrun⟩ | ⟨h0, hA⟩
    · exact clearEntry_ok hs (x := below ((n, 13), []) _) rfl
        (readEntry_ok hs (x := ((n, 13), [])) ⟨by exact Nat.zero_lt_succ 1, hne⟩ hrun)
    · exact hnone (not_not.1 h0) ((Pointers.under_below _ _).trans (Pointers.under_below _ _)) hA
  · rw [if_neg h₃, hroot 14 (by omega)] at hrun
    rw [spotOf_triple h₁ h₂ h₃] at hnone ⊢
    rcases when_ok hrun with ⟨hne, hrun⟩ | ⟨h0, hA⟩
    · have hrun := readEntry_ok hs (x := ((n, 14), [])) ⟨by exact Nat.zero_lt_succ 2, hne⟩ hrun
      rcases when_ok hrun with ⟨hne, hrun⟩ | ⟨h0, hA⟩
      · exact clearEntry_ok hs (x := below (below ((n, 14), []) _) _) rfl
          (readEntry_ok hs (x := below ((n, 14), []) _) ⟨by exact Nat.lt_of_sub_eq_succ rfl, hne⟩ hrun)
      · exact hnone (not_not.1 h0) ((Pointers.under_below _ _).trans (Pointers.under_below _ _)) hA
    · refine hnone (not_not.1 h0) ?_ hA
      exact ((Pointers.under_below _ _).trans (Pointers.under_below _ _)).trans (Pointers.under_below _ _)

/-- **`free_and_clear_logical`** cuts off one data block. -/
theorem freeAndClearLogical_ok (hs : fs.Sound P) (hr : fs.inodeCache n = some r) (hmaps : r.mapsBlocks fs.sectors = true)
    {u : PUnit} (hrun : freeAndClearLogical n q (fs.markFree M) = .ok u A') :
    Frees n (fun z => z = spotOf (fs.blockSize / 4) n q) fs M A' := by
  have hslot := hs.cached n r hr
  have hl := sameLayout_markFree fs M
  have hin := inside_spotOf fs n q
  obtain ⟨phys, A₁, hres, hrun⟩ := bind_eq_ok hrun
  obtain ⟨hphys, hA₁⟩ := resolveBlockId_ok (by rw [hl.isSlot]; exact hslot) (by rw [inodeCache_markFree]; exact hr)
    (by rw [hl.sectors]; exact hmaps) hres
  rw [hl.blockSize, node_markFree hs M hin] at hphys
  rw [hA₁] at hrun
  -- the block is marked before its pointer is cleared
  have hmark : ∃ M', (∀ b, b ∈ M' ↔ b ≠ 0 ∧ b = phys) ∧ ∃ fs', A' = fs'.markFree (M ++ M') ∧
      Removed n (fun z => z = spotOf (fs.blockSize / 4) n q) fs fs' := by
    by_cases h0 : phys = 0
    · rw [if_neg (not_not.2 h0)] at hrun
      refine ⟨[], fun b => ?_, by simpa using clearLogical_ok hs hr hmaps hrun⟩
      rw [h0]
      simp
    · rw [if_pos h0] at hrun
      obtain ⟨v, A₂, hfree, hrun⟩ := bind_eq_ok hrun
      rw [freeBlock_ok hfree, mark_markFree] at hrun
      refine ⟨[phys], fun b => ?_, clearLogical_ok hs hr hmaps hrun⟩
      rw [List.mem_singleton]
      constructor
      · rintro rfl
        exact ⟨h0, rfl⟩
      · exact And.right
  obtain ⟨M', hM', fs', hA', hrem⟩ := hmark
  refine ⟨fs', M', hA', hrem, fun b => ?_⟩
  rw [hM', hrem.lost_iff]
  refine and_congr_right fun _ => ⟨?_, ?_⟩
  · rintro rfl
    exact ⟨_, spotOf_fst .., hin, hphys.symm, rfl⟩
  · rintro ⟨z, -, -, hz, rfl⟩
    rw [hphys]
    exact hz.symm

/-- One freed part after another. -/
theorem Frees.trans {fs₁ : Ext2Fs} {M₁ : List Nat} (h : Removed n C fs fs₁) (hM₁ : ∀ b, b ∈ M₁ ↔ Lost n fs fs₁ b)
    (h' : Frees n C' fs₁ (M ++ M₁) A') : Frees n (fun z => C z ∨ C' z) fs M A' := by
  obtain ⟨fs', M', hA', hrem, hlost⟩ := h'
  refine ⟨fs', M₁ ++ M', by rw [hA', List.append_assoc], h.trans hrem, fun b => ?_⟩
  rw [List.mem_append, hM₁, hlost, h.lost_trans hrem.toCut]

/-- **The loop of `truncate_to`.** -/
theorem clearRange_ok (qs : List Nat) (hs : fs.Sound P) (hr : fs.inodeCache n = some r)
    (hmaps : r.mapsBlocks fs.sectors = true) {u : PUnit}
    (hrun : qs.forM (freeAndClearLogical n) (fs.markFree M) = .ok u A') :
    Frees n (fun z => ∃ q ∈ qs, z = spotOf (fs.blockSize / 4) n q) fs M A' := by
  induction qs generalizing fs P r M with
  | nil =>
    have hA' := (pure_eq_ok hrun).2
    exact ⟨fs, [], by rw [hA', List.append_nil], .refl (by simp), fun b => by simp [Cut.not_lost_self]⟩
  | cons q qs ih =>
    obtain ⟨v, A₁, hone, hrun⟩ := bind_eq_ok hrun
    obtain ⟨fs₁, M₁, hA₁, hrem, hlost⟩ := freeAndClearLogical_ok hs hr hmaps hone
    rw [hA₁] at hrun
    obtain ⟨r₁, hr₁, hsame⟩ := hrem.fields r hr
    have hmaps₁ : r₁.mapsBlocks fs₁.sectors = true := by rw [hsame.mapsBlocks, hrem.layout.sectors, hmaps]
    have hrest := Frees.trans hrem hlost (ih (hs.cut hrem.toCut hr) hr₁ hmaps₁ hrun)
    rw [hrem.layout.blockSize] at hrest
    simpa using hrest

end Clear

/-! ## Pruning -/

section Prune

open Classical

variable {fs fs' A A' : Ext2Fs} {P : Nat → Prop} {n : Nat} {r : RawInode} {M : List Nat}
  {x : (Nat × Nat) × List Nat} {C : (Nat × Nat) × List Nat → Prop}

/-- All pointers of an indirect block, read between the marks. -/
theorem readIndirectBlock_ok (hs : fs.Sound P) (hx : fs.pointers.Inner x) {ptrs : List Nat}
    (hrun : readIndirectBlock (fs.pointers.node x) (fs.markFree M) = .ok ptrs A') :
    ptrs = (List.range (fs.blockSize / 4)).map (fun i => fs.pointers.node (below x i)) ∧ A' = fs.markFree M := by
  rw [readIndirectBlock, get_bind] at hrun
  obtain ⟨-, hrun⟩ := readFsBlock_bind_ok hrun
  obtain ⟨hptrs, hA⟩ := pure_eq_ok hrun
  refine ⟨?_, hA⟩
  rw [hptrs, (sameLayout_markFree fs M).blockSize, disk_markFree (hs.tree x hx.inside hx.2).not_bitmap]
  refine List.map_congr_left fun i hi => ?_
  rw [Pointers.node_below_of_ne hx.2]
  exact (if_pos (List.mem_range.1 hi)).symm

/-- Cutting off what leads to no data block keeps what does. -/
theorem Removed.leads (h : Removed n C fs fs') (hs : fs.Sound P) (hC : ∀ z, C z → ¬ fs.pointers.Leads z)
    (x : (Nat × Nat) × List Nat) : fs'.pointers.Leads x ↔ fs.pointers.Leads x := by
  have hdepth : fs'.pointers.depth = fs.pointers.depth := rfl
  refine Pointers.leads_congr hdepth (fun z hz => ?_) x
  have hin : fs.pointers.Inside z := Nat.le_of_eq hz
  by_cases hzn : z.1.1 = n
  · by_cases hc : C z
    · have h0 : fs.pointers.node z = 0 := by
        by_contra hne
        exact hC z hc ((Pointers.leads_leaf hz).2 hne)
      rw [h.gone z hzn hin hc, h0]
    · rw [h.stay z hzn hin hc]
  · rw [h.toCut.nodes hs hzn hin]

/-- An indirect block is written with some of its pointers cleared. -/
theorem removed_setFull (hs : fs.Sound P) (hx : fs.pointers.Inner x) (buf : Bytes) {D : Nat → Prop}
    (hbuf : ∀ i < fs.blockSize / 4, leNat buf (i * 4) 4 = if D i then 0 else fs.pointers.node (below x i)) :
    Removed x.1.1 (fun z => ∃ j, D j ∧ Under (below x j) z) fs (fs.setDisk (fs.pointers.node x) buf) := by
  have hdata := hs.tree x hx.inside hx.2
  have hl := sameLayout_setDisk fs (fs.pointers.node x) buf
  have hinode : ∀ m, fs.IsSlot m → (fs.setDisk (fs.pointers.node x) buf).inode m = fs.inode m :=
    fun m hm => inode_of_data (W := fun b => b = fs.pointers.node x) hs hl rfl
      (fun b hb => disk_setDisk_of_ne hb _) (fun b hb => hb ▸ hdata) hm
  have hnode : ∀ z, fs.pointers.Inside z →
      ((∃ j, D j ∧ Under (below x j) z) → (fs.setDisk (fs.pointers.node x) buf).pointers.node z = 0) ∧
      ((¬ ∃ j, D j ∧ Under (below x j) z) → (fs.setDisk (fs.pointers.node x) buf).pointers.node z = fs.pointers.node z) :=
    Pointers.node_cut ?_ ?_ ?_
  · refine ⟨⟨hl, fun _ _ => rfl, fun r hr => ⟨r, hr, .refl r⟩, fun b hb => disk_setDisk_of_ne ?_ _, fun z _ hin => ?_⟩,
      fun z _ hin => (hnode z hin).1, fun z _ hin => (hnode z hin).2⟩
    · exact fun heq => hb x rfl hx heq.symm
    · by_cases hz : ∃ j, D j ∧ Under (below x j) z
      · exact .inr ((hnode z hin).1 hz)
      · exact .inl ((hnode z hin).2 hz)
  · rintro z i ⟨j, hj, hz⟩
    exact ⟨j, hj, hz.trans (Pointers.under_below z i)⟩
  · refine fun k => ⟨?_, fun _ => ?_⟩
    · rintro ⟨j, -, -, hpre⟩
      simp [below] at hpre
    · show (if fs.IsSlot k.1 then _ else 0) = if fs.IsSlot k.1 then _ else 0
      by_cases hk : fs.IsSlot k.1
      · rw [if_pos hk, if_pos hk, hinode k.1 hk]
        rfl
      · rw [if_neg hk, if_neg hk]
  · intro z i hz hC
    by_cases hzx : z = x
    · subst hzx
      have hiff : (∃ j, D j ∧ Under (below z j) (below z i)) ↔ D i := by
        constructor
        · rintro ⟨j, hj, hu⟩
          rwa [← hu.below_inj (.refl _)]
        · exact fun hi => ⟨i, hi, .refl _⟩
      rw [hiff]
      by_cases hi : i < fs.blockSize / 4
      · have hchild : (fs.setDisk (fs.pointers.node z) buf).pointers.child (fs.pointers.node z) i = leNat buf (i * 4) 4 := by
          show (if i < fs.blockSize / 4 then leNat ((fs.setDisk _ _).disk _) _ _ else 0) = _
          rw [if_pos hi, disk_setDisk_self]
        rw [hchild, hbuf i hi, Pointers.node_below_of_ne hx.2]
        exact ⟨fun hd => if_pos hd, fun hd => if_neg hd⟩
      · have h₁ : (fs.setDisk (fs.pointers.node z) buf).pointers.child (fs.pointers.node z) i = 0 := if_neg hi
        have h₂ : fs.pointers.child (fs.pointers.node z) i = 0 := if_neg hi
        rw [h₁, h₂]
        exact ⟨fun _ => rfl, fun _ => rfl⟩
    · have hno : ¬ ∃ j, D j ∧ Under (below x j) (below z i) := by
        rintro ⟨j, hj, hu⟩
        rcases Pointers.under_below_iff.1 hu with hu | heq
        · exact hC ⟨j, hj, hu⟩
        · exact hzx (Pointers.below_inj heq).1.symm
      refine ⟨fun hc => absurd hc hno, fun _ => hl.child (disk_setDisk_of_ne (fun heq => hzx ?_) _) i⟩
      exact hs.unique z x hz.inside hx.inside hz.2 heq

/-- What pruning at a spot does: what leads to no data block is cut off below it. -/
def Prunes (n : Nat) (x : (Nat × Nat) × List Nat) (fs : Ext2Fs) (M : List Nat) (empty : Bool) (A' : Ext2Fs) : Prop :=
  Frees n (fun z => (Under x z ∧ z ≠ x) ∧ ¬ fs.pointers.Leads z) fs M A' ∧ (empty = true ↔ ¬ fs.pointers.Leads x)

/-- A pointer of `x` is not below another one. -/
theorem not_under_below {x : (Nat × Nat) × List Nat} {i j : Nat} (hij : i ≠ j) : ¬ Under (below x i) (below x j) :=
  fun h => hij (h.below_inj (.refl _))

/-- One entry of a block that is not the lowest: if it leads to no data block it is freed, and what lies below it is cut
off. -/
theorem pruneEntry_ok {level i : Nat}
    (hprune : ∀ {A' e}, fs.pointers.node (below x i) ≠ 0 →
      pruneIndirect level (fs.pointers.node (below x i)) (fs.markFree M) = .ok e A' → Prunes n (below x i) fs M e A')
    {α : Type} {f : Bool → FsM α} {a : α}
    (hrun : (do
      let freed ← if fs.pointers.node (below x i) = 0 then pure false
        else pruneIndirect level (fs.pointers.node (below x i))
      if freed then freeBlock (fs.pointers.node (below x i))
      f freed : FsM α) (fs.markFree M) = .ok a A') :
    ∃ freed fs₁ M₁, Removed n (fun z => (Under (below x i) z ∧ z ≠ below x i) ∧ ¬ fs.pointers.Leads z) fs fs₁ ∧
      (∀ b, b ∈ M₁ ↔ Lost n fs fs₁ b ∨ fs.pointers.node (below x i) = b ∧ b ≠ 0 ∧ ¬ fs.pointers.Leads (below x i)) ∧
      (freed = true ↔ fs.pointers.node (below x i) ≠ 0 ∧ ¬ fs.pointers.Leads (below x i)) ∧
      f freed (fs₁.markFree (M ++ M₁)) = .ok a A' := by
  by_cases h0 : fs.pointers.node (below x i) = 0
  · rw [if_pos h0, pure_bind] at hrun
    refine ⟨false, fs, [], .refl fun z _ _ hz => ?_, fun b => ?_, by simp [h0], ?_⟩
    · by_contra hne
      exact Pointers.node_ne_zero_of_under hz.1.1 hne h0
    · simp only [List.not_mem_nil, Cut.not_lost_self, false_or, false_iff, h0]
      exact fun hb => hb.2.1 hb.1.symm
    · rw [List.append_nil]
      exact hrun
  · rw [if_neg h0] at hrun
    obtain ⟨freed, A₁, hone, hrun⟩ := bind_eq_ok hrun
    obtain ⟨⟨fs₁, M₁, hA₁, hrem, hlost⟩, hfreed⟩ := hprune h0 hone
    rw [hA₁] at hrun
    cases freed with
    | false =>
      have hleads : fs.pointers.Leads (below x i) := not_not.1 fun hno => nomatch hfreed.2 hno
      exact ⟨false, fs₁, M₁, hrem, fun b => by simp [hlost, hleads], by simp [hleads], hrun⟩
    | true =>
      have hleads := hfreed.1 rfl
      dsimp only at hrun
      rw [if_pos rfl] at hrun
      obtain ⟨v, A₂, hfree, hrun⟩ := bind_eq_ok hrun
      rw [freeBlock_ok hfree, mark_markFree, List.append_assoc] at hrun
      refine ⟨true, fs₁, _, hrem, fun b => ?_, by simp [h0, hleads], hrun⟩
      rw [List.mem_append, hlost, List.mem_singleton]
      refine or_congr_right ⟨?_, fun hb => hb.1.symm⟩
      rintro rfl
      exact ⟨rfl, h0, hleads⟩

/-- What the loop over some pointers of `x` leaves. -/
structure Looped (n : Nat) (x : (Nat × Nat) × List Nat) (js : List Nat) (M' : List Nat) (ptrs : List Nat) (changed : Bool)
    (fs fs' : Ext2Fs) : Prop where
  removed : Removed n (fun z => (∃ j ∈ js, Under (below x j) z ∧ z ≠ below x j) ∧ ¬ fs.pointers.Leads z) fs fs'
  ptrs : ptrs = js.map fun j => if fs.pointers.Leads (below x j) then fs.pointers.node (below x j) else 0
  changed : changed = true ↔ ∃ j ∈ js, fs.pointers.node (below x j) ≠ 0 ∧ ¬ fs.pointers.Leads (below x j)
  marked : ∀ b, b ∈ M' ↔ Lost n fs fs' b ∨
    ∃ j ∈ js, fs.pointers.node (below x j) = b ∧ b ≠ 0 ∧ ¬ fs.pointers.Leads (below x j)

theorem Looped.cons {fs₁ : Ext2Fs} {i : Nat} {js M₁ M' rest : List Nat} {freed changed : Bool}
    (hrem : Removed n (fun z => (Under (below x i) z ∧ z ≠ below x i) ∧ ¬ fs.pointers.Leads z) fs fs₁)
    (hM₁ : ∀ b, b ∈ M₁ ↔ Lost n fs fs₁ b ∨ fs.pointers.node (below x i) = b ∧ b ≠ 0 ∧ ¬ fs.pointers.Leads (below x i))
    (hfreed : freed = true ↔ fs.pointers.node (below x i) ≠ 0 ∧ ¬ fs.pointers.Leads (below x i))
    (hleads : ∀ z, fs₁.pointers.Leads z ↔ fs.pointers.Leads z)
    (hnode : ∀ j ∈ js, fs₁.pointers.node (below x j) = fs.pointers.node (below x j))
    (h : Looped n x js M' rest changed fs₁ fs') :
    Looped n x (i :: js) (M₁ ++ M') ((if freed = true then 0 else fs.pointers.node (below x i)) :: rest)
      (freed || changed) fs fs' where
  removed := (hrem.trans h.removed).congr fun z _ _ _ => by
    rw [hleads]
    simp only [List.mem_cons, exists_eq_or_imp]
    rw [or_and_right]
  ptrs := by
    rw [List.map_cons, h.ptrs]
    congr 1
    · by_cases hf : freed = true
      · rw [if_pos hf, if_neg (hfreed.1 hf).2]
      · rw [if_neg hf]
        by_cases hl : fs.pointers.Leads (below x i)
        · rw [if_pos hl]
        · rw [if_neg hl]
          by_contra hne
          exact hf (hfreed.2 ⟨hne, hl⟩)
    · refine List.map_congr_left fun j hj => ?_
      rw [hnode j hj]
      exact if_congr (hleads _) rfl rfl
  changed := by
    rw [Bool.or_eq_true, hfreed, h.changed]
    simp only [List.mem_cons, exists_eq_or_imp]
    refine or_congr_right (exists_congr fun j => and_congr_right fun hj => ?_)
    rw [hnode j hj, hleads]
  marked := fun b => by
    have hrest : (∃ j ∈ js, fs₁.pointers.node (below x j) = b ∧ b ≠ 0 ∧ ¬ fs₁.pointers.Leads (below x j)) ↔
        ∃ j ∈ js, fs.pointers.node (below x j) = b ∧ b ≠ 0 ∧ ¬ fs.pointers.Leads (below x j) := by
      refine exists_congr fun j => and_congr_right fun hj => ?_
      rw [hnode j hj, hleads]
    rw [List.mem_append, hM₁, h.marked, hrest, hrem.lost_trans h.removed.toCut]
    simp only [List.mem_cons, exists_eq_or_imp]
    rw [or_or_or_comm]

/-- **The loop over the pointers** of a block that is not the lowest; the pointers themselves are still there. -/
theorem pruneEntries_ok {level : Nat}
    (hprune : ∀ {fs P r M A' e j}, fs.Sound P → fs.inodeCache n = some r → r.mapsBlocks fs.sectors = true →
      fs.pointers.node (below x j) ≠ 0 → pruneIndirect level (fs.pointers.node (below x j)) (fs.markFree M) = .ok e A' →
      Prunes n (below x j) fs M e A')
    (hxn : x.1.1 = n) (hlt : x.2.length < fs.pointers.depth x.1) (js : List Nat) (hjs : js.Nodup) (hs : fs.Sound P)
    (hr : fs.inodeCache n = some r) (hmaps : r.mapsBlocks fs.sectors = true) {ptrs : List Nat} {changed : Bool}
    (hrun : pruneEntries (pruneIndirect level) (js.map fun j => fs.pointers.node (below x j)) (fs.markFree M) =
      .ok (ptrs, changed) A') :
    ∃ fs' M', A' = fs'.markFree (M ++ M') ∧ Looped n x js M' ptrs changed fs fs' := by
  induction js generalizing fs P r M A' ptrs changed with
  | nil =>
    obtain ⟨hres, hA⟩ := pure_eq_ok hrun
    obtain ⟨rfl, rfl⟩ := Prod.mk.inj hres
    refine ⟨fs, [], by rw [hA, List.append_nil], .refl (by simp), rfl, by simp, fun b => ?_⟩
    simp [Cut.not_lost_self]
  | cons i js ih =>
    obtain ⟨hi, hjs⟩ := List.nodup_cons.1 hjs
    rw [List.map_cons, pruneEntries] at hrun
    obtain ⟨freed, fs₁, M₁, hrem, hM₁, hfreed, hrun⟩ := pruneEntry_ok (hprune hs hr hmaps) hrun
    obtain ⟨⟨rest, changed'⟩, A₁, hrest, hrun⟩ := bind_eq_ok hrun
    obtain ⟨hres, hA⟩ := pure_eq_ok hrun
    obtain ⟨rfl, rfl⟩ := Prod.mk.inj hres
    -- the other entries have not been touched
    have hs₁ := hs.cut hrem.toCut hr
    obtain ⟨r₁, hr₁, hsame⟩ := hrem.fields r hr
    have hmaps₁ : r₁.mapsBlocks fs₁.sectors = true := by rw [hsame.mapsBlocks, hrem.layout.sectors, hmaps]
    have hnode : ∀ j ∈ js, fs₁.pointers.node (below x j) = fs.pointers.node (below x j) := by
      refine fun j hj => hrem.stay _ hxn (Pointers.inside_below.2 hlt) fun hz => not_under_below ?_ hz.1.1
      rintro rfl
      exact hi hj
    rw [List.map_congr_left fun j hj => (hnode j hj).symm] at hrest
    have hlt₁ : x.2.length < fs₁.pointers.depth x.1 := hlt
    obtain ⟨fs', M', hA', hloop⟩ := ih hlt₁ hjs hs₁ hr₁ hmaps₁ hrest
    exact ⟨fs', M₁ ++ M', by rw [hA, hA', List.append_assoc],
      .cons hrem hM₁ hfreed (hrem.leads hs fun z hz => hz.2) hnode hloop⟩

/-- The bytes of a block of pointers. -/
theorem leNat_pointers (ptrs : List Nat) (i : Nat) :
    leNat (fun j => toLe (ptrs.getD (j / 4) 0) (j % 4)) (i * 4) 4 = ptrs.getD i 0 % 2 ^ 32 := by
  have hdrop : leNat (fun j => toLe (ptrs.getD (j / 4) 0) (j % 4)) (i * 4) 4 = leNat (toLe (ptrs.getD i 0)) 0 4 := by
    have h := leNat_dropBytes (b := fun j => toLe (ptrs.getD (j / 4) 0) (j % 4)) (p := i * 4) (i := 0) (n := 4)
    rw [Nat.add_zero] at h
    rw [← h]
    refine leNat_congr fun j _ hj => ?_
    have hdiv : (i * 4 + j) / 4 = i := by omega
    have hmod : (i * 4 + j) % 4 = j := by omega
    simp only [dropBytes, hdiv, hmod]
  rw [hdrop, leNat_toLe]
  simp

theorem node_lt (hx : fs.pointers.Inner x) (i : Nat) : fs.pointers.node (below x i) < 2 ^ 32 := by
  rw [Pointers.node_below_of_ne hx.2]
  show (if _ then leNat _ _ 4 else 0) < _
  split
  · exact leNat_lt
  · decide

/-- Only the pointers of a block lead on. -/
theorem leads_iff_range (hx : fs.pointers.Inner x) :
    fs.pointers.Leads x ↔ ∃ i ∈ List.range (fs.blockSize / 4), fs.pointers.Leads (below x i) := by
  rw [Pointers.leads_iff hx.1]
  refine exists_congr fun i => ⟨fun h => ⟨List.mem_range.2 ?_, h⟩, And.right⟩
  exact (bounds_of_node _ h.node_ne_zero).2.2 i (by simp [below])

/-- The pointers that lead to no data block are cleared at last. -/
theorem Looped.finish {fs₁ : Ext2Fs} {ptrs M' : List Nat} {changed : Bool} (hs : fs.Sound P)
    (hr : fs.inodeCache n = some r) (hxn : x.1.1 = n) (hx : fs.pointers.Inner x)
    (h : Looped n x (List.range (fs.blockSize / 4)) M' ptrs changed fs fs₁) {u : PUnit}
    (hrun : (if changed = true then writeIndirectFull (fs.pointers.node x) ptrs else pure ⟨⟩) (fs₁.markFree (M ++ M')) =
      .ok u A') : Frees n (fun z => (Under x z ∧ z ≠ x) ∧ ¬ fs.pointers.Leads z) fs M A' := by
  have hs₁ := hs.cut h.removed.toCut hr
  have hbelow : ∀ j, fs₁.pointers.node (below x j) = fs.pointers.node (below x j) := fun j =>
    h.removed.stay _ hxn (Pointers.inside_below.2 hx.1) fun ⟨⟨i, _, hi, hne⟩, _⟩ =>
      hne (congrArg (below x) (hi.below_inj (.refl _)).symm)
  have hself : fs₁.pointers.node x = fs.pointers.node x := by
    refine h.removed.stay _ hxn hx.inside fun ⟨⟨i, _, hi, _⟩, _⟩ => ?_
    have := hi.2.length_le
    simp [below] at this
  -- what is cut off below `x`: below an entry, or an entry itself
  have hsplit : ∀ z, fs.pointers.node z ≠ 0 →
      (((∃ j ∈ List.range (fs.blockSize / 4), Under (below x j) z ∧ z ≠ below x j) ∧ ¬ fs.pointers.Leads z) ∨
        (∃ j, ¬ fs.pointers.Leads (below x j) ∧ Under (below x j) z) ↔ (Under x z ∧ z ≠ x) ∧ ¬ fs.pointers.Leads z) := by
    intro z hne
    have hstrict : ∀ j, Under (below x j) z → Under x z ∧ z ≠ x := by
      refine fun j hj => ⟨(Pointers.under_below x j).trans hj, ?_⟩
      rintro rfl
      have := hj.2.length_le
      simp [below] at this
    constructor
    · rintro (⟨⟨j, -, hj, -⟩, hl⟩ | ⟨j, hl, hj⟩)
      · exact ⟨hstrict j hj, hl⟩
      · exact ⟨hstrict j hj, fun hz => hl (hz.of_under hj)⟩
    · rintro ⟨⟨hz, hzx⟩, hl⟩
      obtain ⟨j, hj⟩ := (Pointers.under_iff.1 hz).resolve_left (Ne.symm hzx)
      by_cases hzj : z = below x j
      · exact .inr ⟨j, hzj ▸ hl, hj⟩
      · have hlt := (bounds_of_node _ (Pointers.node_ne_zero_of_under hj hne)).2.2 j (by simp [below])
        exact .inl ⟨⟨j, List.mem_range.2 hlt, hj, hzj⟩, hl⟩
  rcases when_ok hrun with ⟨hch, hrun⟩ | ⟨hch, hA⟩
  · have hx₁ : fs₁.pointers.Inner x := ⟨hx.1, by rw [hself]; exact hx.2⟩
    have hnb : ¬ fs₁.IsBitmap (fs.pointers.node x) := by
      rw [← hself]
      exact (hs₁.tree x hx₁.inside hx₁.2).not_bitmap
    obtain ⟨-, -, hA⟩ := writeFsBlock_ok hrun
    rw [setDisk_markFree hnb] at hA
    have hfull := removed_setFull hs₁ hx₁ (fun j => toLe (ptrs.getD (j / 4) 0) (j % 4))
      (D := fun j => ¬ fs.pointers.Leads (below x j)) fun i hi => by
        have hi' : i < fs.blockSize / 4 := by
          rw [← h.removed.layout.blockSize]
          exact hi
        rw [leNat_pointers, h.ptrs, List.getD_eq_getElem?_getD, List.getElem?_map, List.getElem?_range hi', Option.map_some,
          Option.getD_some, hbelow]
        by_cases hl : fs.pointers.Leads (below x i)
        · rw [if_pos hl, if_neg (not_not.2 hl)]
          exact Nat.mod_eq_of_lt (node_lt hx i)
        · rw [if_neg hl, if_pos hl]
          rfl
    rw [hxn, hself] at hfull
    refine ⟨_, M', hA, (h.removed.trans hfull).congr fun z _ _ hne => hsplit z hne, fun b => ?_⟩
    rw [h.marked, h.removed.lost_trans hfull.toCut, hfull.lost_iff]
    refine or_congr_right ⟨?_, ?_⟩
    · rintro ⟨j, -, hj, hb, hl⟩
      exact ⟨hb, below x j, hxn, Pointers.inside_below.2 hx.1, (hbelow j).trans hj, j, hl, .refl _⟩
    · rintro ⟨hb, z, hz, hin, hzb, j, hl, hj⟩
      have hzj : z = below x j := by
        by_contra hzj
        have hne : fs.pointers.node z ≠ 0 := by
          rw [← (h.removed.node z hz hin).resolve_right (by rw [hzb]; exact hb), hzb]
          exact hb
        have hlt := (bounds_of_node _ (Pointers.node_ne_zero_of_under hj hne)).2.2 j (by simp [below])
        refine hb (hzb.symm.trans (h.removed.gone z hz hin ⟨⟨j, List.mem_range.2 hlt, hj, hzj⟩, ?_⟩))
        exact fun hlz => hl (hlz.of_under hj)
      subst hzj
      rw [hbelow] at hzb
      have hlt := (bounds_of_node _ (show fs.pointers.node (below x j) ≠ 0 by rw [hzb]; exact hb)).2.2 j (by simp [below])
      exact ⟨j, List.mem_range.2 hlt, hzb, hb, hl⟩
  · have hnone : ∀ j, fs.pointers.node (below x j) ≠ 0 → fs.pointers.Leads (below x j) := by
      intro j hne
      by_contra hl
      have hlt := (bounds_of_node _ hne).2.2 j (by simp [below])
      exact hch (h.changed.2 ⟨j, List.mem_range.2 hlt, hne, hl⟩)
    refine ⟨fs₁, M', hA, h.removed.congr fun z _ _ hne => ?_, fun b => ?_⟩
    · rw [← hsplit z hne]
      refine ⟨.inl, fun hz => hz.resolve_right ?_⟩
      rintro ⟨j, hl, hj⟩
      exact hl (hnone j (Pointers.node_ne_zero_of_under hj hne))
    · rw [h.marked]
      refine ⟨fun hb => hb.resolve_right ?_, .inl⟩
      rintro ⟨j, -, hj, hb, hl⟩
      exact hl (hnone j (by rw [hj]; exact hb))

/-- **`prune_indirect`** cuts off what leads to no data block below a block, and says whether the block itself does. -/
theorem pruneIndirect_ok (level : Nat) (hs : fs.Sound P) (hr : fs.inodeCache n = some r)
    (hmaps : r.mapsBlocks fs.sectors = true) (hxn : x.1.1 = n) (hx : fs.pointers.node x ≠ 0)
    (hlevel : x.2.length + (level + 1) = fs.pointers.depth x.1) {e : Bool}
    (hrun : pruneIndirect (level + 1) (fs.pointers.node x) (fs.markFree M) = .ok e A') : Prunes n x fs M e A' := by
  induction level generalizing fs P r M A' e x with
  | zero =>
    have hinner : fs.pointers.Inner x := ⟨by omega, hx⟩
    rw [pruneIndirect, if_neg hx] at hrun
    obtain ⟨ptrs, A₁, hread, hrun⟩ := bind_eq_ok hrun
    obtain ⟨hptrs, hA₁⟩ := readIndirectBlock_ok hs hinner hread
    rw [if_pos rfl] at hrun
    obtain ⟨he, hA⟩ := pure_eq_ok hrun
    have hleaf : ∀ i, fs.pointers.Leads (below x i) ↔ fs.pointers.node (below x i) ≠ 0 := fun i =>
      Pointers.leads_leaf (by simp only [below, List.length_append, List.length_singleton]; omega)
    refine ⟨⟨fs, [], by rw [hA, hA₁, List.append_nil], .refl ?_,
      fun b => by simp [Cut.not_lost_self]⟩, ?_⟩
    · rintro z hz hin ⟨⟨hu, hne⟩, hl⟩
      by_contra h0
      refine hl ((Pointers.leads_leaf ?_).2 h0)
      obtain ⟨i, hi⟩ := (Pointers.under_iff.1 hu).resolve_left (Ne.symm hne)
      have hlen := hi.2.length_le
      have hdepth : fs.pointers.depth z.1 = fs.pointers.depth x.1 := by rw [hu.1]
      have hin' : z.2.length ≤ fs.pointers.depth z.1 := hin
      simp only [below, List.length_append, List.length_singleton] at hlen
      omega
    · rw [he, hptrs, leads_iff_range hinner]
      simp only [hleaf]
      simp
  | succ level ih =>
    have hinner : fs.pointers.Inner x := ⟨by omega, hx⟩
    rw [pruneIndirect, if_neg hx] at hrun
    obtain ⟨ptrs, A₁, hread, hrun⟩ := bind_eq_ok hrun
    obtain ⟨hptrs, hA₁⟩ := readIndirectBlock_ok hs hinner hread
    rw [if_neg (Nat.succ_ne_zero level), hA₁, hptrs] at hrun
    obtain ⟨⟨ptrs', changed⟩, A₂, hloop, hrun⟩ := bind_eq_ok hrun
    have hnext : ∀ (fs' : Ext2Fs) (j : Nat), (below x j).2.length + (level + 1) = fs'.pointers.depth (below x j).1 := by
      intro fs' j
      rw [show fs'.pointers.depth (below x j).1 = fs.pointers.depth x.1 from rfl, ← hlevel]
      simp only [below, List.length_append, List.length_singleton]
      omega
    obtain ⟨fs₁, M', hA₂, hlooped⟩ := pruneEntries_ok
      (fun {_ _ _ _ _ _ j} hs hr hmaps hne hrun => ih (x := below x j) hs hr hmaps hxn hne (hnext _ j) hrun)
      hxn hinner.1 _ List.nodup_range hs hr hmaps hloop
    rw [hA₂] at hrun
    have hwrite : ∃ v A₃, (if changed = true then writeIndirectFull (fs.pointers.node x) ptrs' else pure ⟨⟩)
        (fs₁.markFree (M ++ M')) = .ok v A₃ ∧ (pure (ptrs'.all fun p => decide (p = 0)) : FsM Bool) A₃ = .ok e A' := by
      cases changed with
      | false => exact ⟨⟨⟩, _, rfl, hrun⟩
      | true => exact bind_eq_ok hrun
    obtain ⟨v, A₃, hwrite, hrun⟩ := hwrite
    obtain ⟨he, hA⟩ := pure_eq_ok hrun
    refine ⟨hA ▸ hlooped.finish hs hr hxn hinner hwrite, ?_⟩
    rw [he, hlooped.ptrs, leads_iff_range hinner]
    simp only [List.all_map, List.all_eq_true, Function.comp_apply, decide_eq_true_eq, not_exists, not_and]
    refine forall_congr' fun i => imp_congr_right fun _ => ⟨fun hi hl => ?_, fun hl => if_neg hl⟩
    rw [if_pos hl] at hi
    exact hl.node_ne_zero hi

theorem under_root (z : (Nat × Nat) × List Nat) : Under (z.1, []) z := ⟨rfl, List.nil_prefix⟩

theorem Frees.congr {C' : (Nat × Nat) × List Nat → Prop} (h : Frees n C fs M A')
    (hC : ∀ z, z.1.1 = n → fs.pointers.Inside z → fs.pointers.node z ≠ 0 → (C z ↔ C' z)) : Frees n C' fs M A' := by
  obtain ⟨fs', M', hA', hrem, hlost⟩ := h
  exact ⟨fs', M', hA', hrem.congr hC, hlost⟩

theorem Frees.refl (hC : ∀ z, z.1.1 = n → fs.pointers.Inside z → C z → fs.pointers.node z = 0) :
    Frees n C fs M (fs.markFree M) :=
  ⟨fs, [], by rw [List.append_nil], .refl hC, fun b => by simp [Cut.not_lost_self]⟩

/-- One of the three indirect pointers of an inode. -/
theorem pruneSlot_ok {slot : Nat} (h12 : 12 ≤ slot) (h15 : slot < 15) (hs : fs.Sound P) (hr : fs.inodeCache n = some r)
    (hmaps : r.mapsBlocks fs.sectors = true) {u : PUnit} (hrun : (do
      let r ← raw n
      if r.block slot ≠ 0 then
        if ← pruneIndirect (slot - 11) (r.block slot) then
          freeBlock (r.block slot)
          modifyRaw n fun r => r.setBlock slot 0 : FsM Unit) (fs.markFree M) = .ok u A') :
    Frees n (fun z => Under ((n, slot), []) z ∧ ¬ fs.pointers.Leads z) fs M A' := by
  have hroot : r.block slot = fs.pointers.node ((n, slot), []) := (root_of_cached hr (hs.cached n r hr) hmaps h15).symm
  obtain ⟨r', hr', hrun⟩ := raw_bind_ok hrun
  rw [inodeCache_markFree, hr, Option.some.injEq] at hr'
  subst hr'
  rcases when_ok hrun with ⟨hne, hrun⟩ | ⟨h0, hA⟩
  · obtain ⟨e, A₁, hprune, hrun⟩ := bind_eq_ok hrun
    have hlevel : ((n, slot), ([] : List Nat)).2.length + (slot - 12 + 1) = fs.pointers.depth (n, slot) := by
      show 0 + (slot - 12 + 1) = slot - 11
      omega
    rw [hroot] at hne hprune
    rw [show slot - 11 = slot - 12 + 1 by omega] at hprune
    obtain ⟨⟨fs₁, M₁, hA₁, hrem, hlost⟩, he⟩ := pruneIndirect_ok (slot - 12) hs hr hmaps rfl hne hlevel hprune
    rw [hA₁] at hrun
    have hself : fs₁.pointers.node ((n, slot), []) = fs.pointers.node ((n, slot), []) :=
      hrem.stay _ rfl (Nat.zero_le _) fun hz => hz.1.2 rfl
    rcases when_ok hrun with ⟨htrue, hrun⟩ | ⟨hfalse, hA⟩
    · -- the block itself leads nowhere
      have hl := he.1 htrue
      obtain ⟨v, A₂, hfree, hrun⟩ := bind_eq_ok hrun
      rw [freeBlock_ok hfree, mark_markFree, List.append_assoc] at hrun
      obtain ⟨r₁, hr₁, hA⟩ := modifyRaw_ok hrun
      rw [inodeCache_markFree] at hr₁
      obtain ⟨r₂, hr₂, hsame⟩ := hrem.fields r hr
      rw [hr₁, Option.some.injEq] at hr₂
      subst hr₂
      rw [setInode_markFree] at hA
      have hs₁ := hs.cut hrem.toCut hr
      have hmaps₁ : r₁.mapsBlocks fs₁.sectors = true := by rw [hsame.mapsBlocks, hrem.layout.sectors, hmaps]
      have hroot₁ : r₁.block slot = fs₁.pointers.node ((n, slot), []) :=
        (root_of_cached hr₁ (hs₁.cached n r₁ hr₁) hmaps₁ h15).symm
      have hrem₁ := removed_setRoot hs₁ hr₁ hmaps₁ h15 fun _ hne₁ i => by
        rw [hroot₁] at hne₁ ⊢
        rw [← Pointers.node_below_of_ne hne₁]
        refine hrem.gone _ rfl (Pointers.inside_below.2 ?_) ⟨⟨Pointers.under_below .., Pointers.below_ne _ _⟩, ?_⟩
        · show 0 < slot - 11
          omega
        · exact fun hz => hl (hz.of_under (Pointers.under_below ..))
      refine ⟨_, M₁ ++ [r.block slot], hA, (hrem.trans hrem₁).congr fun z hz hin hne => ?_, fun b => ?_⟩
      · constructor
        · rintro (⟨⟨hu, -⟩, hl⟩ | rfl)
          · exact ⟨hu, hl⟩
          · exact ⟨.refl _, hl⟩
        · rintro ⟨hu, hl⟩
          by_cases hzr : z = ((n, slot), [])
          · exact .inr hzr
          · exact .inl ⟨⟨hu, hzr⟩, hl⟩
      · rw [List.mem_append, hlost, hrem.lost_trans hrem₁.toCut, List.mem_singleton, hrem₁.lost_iff]
        refine or_congr_right ⟨?_, ?_⟩
        · rintro rfl
          exact ⟨hroot ▸ hne, _, rfl, Nat.zero_le _, by rw [hself, hroot], rfl⟩
        · rintro ⟨-, z, -, -, hz, rfl⟩
          rw [hroot, ← hself]
          exact hz.symm
    · have hl : fs.pointers.Leads ((n, slot), []) := not_not.1 fun hno => hfalse (he.2 hno)
      refine ⟨fs₁, M₁, hA, hrem.congr fun z _ _ _ => ?_, hlost⟩
      constructor
      · exact fun hz => ⟨hz.1.1, hz.2⟩
      · rintro ⟨hu, hno⟩
        refine ⟨⟨hu, ?_⟩, hno⟩
        rintro rfl
        exact hno hl
  · rw [hA]
    refine .refl fun z _ _ hz => ?_
    by_contra hne
    exact Pointers.node_ne_zero_of_under hz.1 hne (by rw [← hroot]; exact not_not.1 h0)

theorem pruneSlots_ok (slots : List Nat) (hslots : ∀ slot ∈ slots, 12 ≤ slot ∧ slot < 15) (hs : fs.Sound P)
    (hr : fs.inodeCache n = some r) (hmaps : r.mapsBlocks fs.sectors = true) {u : PUnit}
    (hrun : (slots.forM (fun slot => do
      let r ← raw n
      if r.block slot ≠ 0 then
        if ← pruneIndirect (slot - 11) (r.block slot) then
          freeBlock (r.block slot)
          modifyRaw n fun r => r.setBlock slot 0) : FsM Unit) (fs.markFree M) = .ok u A') :
    Frees n (fun z => (∃ slot ∈ slots, Under ((n, slot), []) z) ∧ ¬ fs.pointers.Leads z) fs M A' := by
  induction slots generalizing fs P r M with
  | nil =>
    rw [(pure_eq_ok hrun).2]
    exact .refl (by simp)
  | cons slot slots ih =>
    obtain ⟨h12, h15⟩ := hslots slot (List.mem_cons_self ..)
    obtain ⟨v, A₁, hone, hrun⟩ := bind_eq_ok hrun
    obtain ⟨fs₁, M₁, hA₁, hrem, hlost⟩ := pruneSlot_ok h12 h15 hs hr hmaps hone
    rw [hA₁] at hrun
    obtain ⟨r₁, hr₁, hsame⟩ := hrem.fields r hr
    have hmaps₁ : r₁.mapsBlocks fs₁.sectors = true := by rw [hsame.mapsBlocks, hrem.layout.sectors, hmaps]
    have hleads := hrem.leads hs fun z hz => hz.2
    have hrest := ih (fun s hs => hslots s (List.mem_cons_of_mem _ hs)) (hs.cut hrem.toCut hr) hr₁ hmaps₁ hrun
    refine (Frees.trans hrem hlost hrest).congr fun z _ _ _ => ?_
    rw [hleads, List.exists_mem_cons_iff, or_and_right]

/-- **`prune_empty_indirects`** cuts off everything that leads to no data block. -/
theorem pruneEmptyIndirects_ok (hs : fs.Sound P) (hr : fs.inodeCache n = some r) (hmaps : r.mapsBlocks fs.sectors = true)
    {u : PUnit} (hrun : pruneEmptyIndirects n (fs.markFree M) = .ok u A') :
    Frees n (fun z => ¬ fs.pointers.Leads z) fs M A' := by
  refine (pruneSlots_ok [12, 13, 14] (by decide) hs hr hmaps hrun).congr fun z hz hin hne => and_iff_right_of_imp fun hl => ?_
  -- a direct block leads to itself
  obtain ⟨-, h15, -⟩ := bounds_of_node z hne
  have h12 : 12 ≤ z.1.2 := by
    by_contra hlt
    refine hl ((Pointers.leads_leaf ?_).2 hne)
    have hle : z.2.length ≤ z.1.2 - 11 := hin
    show z.2.length = z.1.2 - 11
    omega
  refine ⟨z.1.2, by simp; omega, ?_⟩
  rw [← hz]
  exact under_root z

end Prune

end Koros.Ext2
