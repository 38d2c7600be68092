import Koros.Ext2.BlockMap

/-!
# Single changes of a filesystem

Every call is put together from a few changes of the state: a block is marked as used or free, a block of an inode's data is
written, an inode is changed in memory or written back, and one pointer is set or cleared. For each of them: that `Sound`
stays, and what becomes of the blocks that a call holds back.

`Step n fs fs'` is what a call on inode `n` leaves alone: every other inode, with its blocks and their bytes.
-/
set_option autoImplicit false

namespace Koros.Ext2

open Koros.Lib Xattr

@[simp] theorem disk_setDisk_self (fs : Ext2Fs) (b : Nat) (buf : Bytes) : (fs.setDisk b buf).disk b = buf :=
  Function.update_self ..

theorem disk_setDisk_of_ne {fs : Ext2Fs} {b c : Nat} (h : c ≠ b) (buf : Bytes) : (fs.setDisk b buf).disk c = fs.disk c :=
  Function.update_of_ne h ..

/-! ## Calls on one inode -/

/-- Another inode may share an attribute block with `n`, and then only its reference count changes. -/
structure Step (n : Nat) (fs fs' : Ext2Fs) : Prop where
  layout : SameLayout fs fs'
  inodes : ∀ m, fs'.Allocated .inode m ↔ fs.Allocated .inode m
  cache : ∀ m, m ≠ n → fs'.inodeCache m = fs.inodeCache m
  onDisk : ∀ m, m ≠ n → fs.IsSlot m → fs'.diskInode m = fs.diskInode m
  nodes : ∀ x, x.1.1 ≠ n → fs.pointers.Inside x → fs'.pointers.node x = fs.pointers.node x
  bytes : ∀ x, x.1.1 ≠ n → fs.pointers.Inside x → fs.pointers.node x ≠ 0 →
    fs'.disk (fs.pointers.node x) = fs.disk (fs.pointers.node x)
  attrs : ∀ m, m ≠ n → fs.acl m ≠ 0 → ∀ j, j < 4 ∨ 8 ≤ j → fs'.disk (fs.acl m) j = fs.disk (fs.acl m) j

namespace Step

variable {n m : Nat} {fs fs' fs'' : Ext2Fs}

theorem refl (n : Nat) (fs : Ext2Fs) : Step n fs fs :=
  ⟨.refl fs, fun _ => Iff.rfl, fun _ _ => rfl, fun _ _ _ => rfl, fun _ _ _ => rfl, fun _ _ _ _ => rfl, fun _ _ _ _ _ => rfl⟩

theorem inode (h : Step n fs fs') (hm : m ≠ n) (hs : fs.IsSlot m) : fs'.inode m = fs.inode m := by
  unfold Ext2Fs.inode
  rw [h.cache m hm, h.onDisk m hm hs]

theorem acl (h : Step n fs fs') (hm : m ≠ n) : fs'.acl m = fs.acl m := by
  show (if fs'.IsSlot m then (fs'.inode m).fileAcl else 0) = if fs.IsSlot m then _ else 0
  by_cases hs : fs.IsSlot m
  · rw [if_pos (h.layout.isSlot ▸ hs), if_pos hs, h.inode hm hs]
  · rw [if_neg (h.layout.isSlot ▸ hs), if_neg hs]

theorem trans (h : Step n fs fs') (h' : Step n fs' fs'') : Step n fs fs'' where
  layout := h.layout.trans h'.layout
  inodes := fun m => (h'.inodes m).trans (h.inodes m)
  cache := fun m hm => (h'.cache m hm).trans (h.cache m hm)
  onDisk := fun m hm hs => (h'.onDisk m hm (h.layout.isSlot ▸ hs)).trans (h.onDisk m hm hs)
  nodes := fun x hx hin => (h'.nodes x hx hin).trans (h.nodes x hx hin)
  bytes := fun x hx hin hne => by
    have hnode := h.nodes x hx hin
    have hbytes := h'.bytes x hx hin (by rw [hnode]; exact hne)
    rw [hnode] at hbytes
    exact hbytes.trans (h.bytes x hx hin hne)
  attrs := fun m hm hne j hj => by
    have hacl := h.acl hm
    have hattrs := h'.attrs m hm (by rw [hacl]; exact hne) j hj
    rw [hacl] at hattrs
    exact hattrs.trans (h.attrs m hm hne j hj)

variable (h : Step n fs fs') (hm : m ≠ n)

include h hm

theorem treeSize : fs'.treeSize m = fs.treeSize m := by
  unfold Ext2Fs.treeSize
  rw [h.layout.blockSize]
  refine Pointers.count_congr rfl fun x hx => h.nodes x ?_ (Pointers.mem_spots.1 hx).2.1
  obtain ⟨k, -, hk⟩ := List.mem_map.1 (Pointers.mem_spots.1 hx).1
  rw [← hk]
  exact hm

theorem blockCount : fs'.blockCount m = fs.blockCount m := by
  unfold Ext2Fs.blockCount
  rw [h.treeSize hm, h.acl hm]

end Step

section Edits

variable {fs fs' : Ext2Fs} {P : Nat → Prop} {n b : Nat} {r r' : RawInode}

/-- The bitmaps and the attribute blocks are as they were. -/
theorem Ext2Fs.Sound.same (h : fs.Sound P) (hm : SameMap fs fs')
    (hcached : ∀ n r, fs'.inodeCache n = some r → fs.IsSlot n) (hbits : ∀ b, fs.IsBitmap b → fs'.disk b = fs.disk b)
    (hattr : ∀ n, fs.acl n ≠ 0 → fs'.disk (fs.acl n) = fs.disk (fs.acl n)) : fs'.Sound P := by
  have halloc := hm.layout.allocated hbits .block
  refine h.frame hm hcached hattr (fun b hb hin => ?_) (fun b hb => ?_) h.pending
  · rw [halloc]
    exact h.metadata b hb hin
  · rw [halloc]
    exact h.used b hb

/-! ## Marking a block -/

theorem diskInode_mark (hp : fs.Placed) (k : Kind) (b : Nat) (v : Bool) (hn : fs.IsSlot n) :
    (fs.mark k b v).diskInode n = fs.diskInode n := by
  refine diskInode_congr (sameLayout_mark fs k b v) fun c off hplace j _ => ?_
  obtain ⟨c', off', hplace', htable, -⟩ := tablePlace_spec hp hn
  rw [hplace, Option.some.injEq, Prod.mk.injEq] at hplace'
  rw [disk_mark v (hp.tables c (hplace'.1 ▸ htable)).2]

theorem inode_mark (hp : fs.Placed) (k : Kind) (b : Nat) (v : Bool) (hn : fs.IsSlot n) :
    (fs.mark k b v).inode n = fs.inode n := by
  unfold Ext2Fs.inode
  rw [(mark_frame fs k b v).2.2, diskInode_mark hp k b v hn]

theorem sameMap_mark (h : fs.Sound P) (k : Kind) (b : Nat) (v : Bool) : SameMap fs (fs.mark k b v) where
  layout := sameLayout_mark fs k b v
  root := fun n hn _ => by rw [inode_mark h.toPlaced k b v hn]
  fileAcl := fun n hn => by rw [inode_mark h.toPlaced k b v hn]
  inner := fun x hx => disk_mark v (h.tree x hx.inside hx.2).not_bitmap

theorem step_mark (h : fs.Sound P) (hb : fs.superBlock.InRange .block b) (v : Bool) (n : Nat) :
    Step n fs (fs.mark .block b v) where
  layout := sameLayout_mark ..
  inodes := fun m => by rw [allocated_mark h.geometry hb, if_neg fun hk => nomatch hk.1]
  cache := fun m _ => by rw [(mark_frame fs .block b v).2.2]
  onDisk := fun m _ hs => diskInode_mark h.toPlaced .block b v hs
  nodes := fun x _ hin => (sameMap_mark h .block b v).node hin
  bytes := fun x _ hin hne => disk_mark v (h.tree x hin hne).not_bitmap
  attrs := fun m _ hne j _ => by rw [disk_mark v (h.attr m hne).1.not_bitmap]

/-- A block that nobody has is taken. -/
theorem Ext2Fs.Sound.take (h : fs.Sound P) (hb : Taken .block fs fs' b) :
    fs'.Sound (fun c => P c ∨ c = b) ∧ SameMap fs fs' ∧ fs.IsData b ∧ ¬ fs.Refers b ∧ ¬ P b ∧ ∀ n, Step n fs fs' := by
  obtain ⟨hin, hfree, rfl⟩ := hb
  have hdata : fs.IsData b := ⟨hin, fun hm => hfree (h.metadata b hm hin)⟩
  have hno : ¬ (fs.Refers b ∨ P b) := fun hc => hfree ((h.used b hdata).2 hc)
  have hm := sameMap_mark h .block b true
  rw [not_or] at hno
  refine ⟨h.frame hm ?_ ?_ ?_ ?_ ?_, hm, hdata, hno.1, hno.2, step_mark h hin true⟩
  · rw [(mark_frame fs .block b true).2.2]
    exact h.cached
  · exact fun m hm => disk_mark true (h.attr m hm).1.not_bitmap
  · intro c hc hcin
    rw [allocated_mark h.geometry hin]
    split
    · rfl
    · exact h.metadata c hc hcin
  · intro c hc
    rw [allocated_mark h.geometry hin]
    by_cases hcb : c = b
    · simp [hcb]
    · rw [if_neg fun hk => hcb hk.2, h.used c hc]
      simp [hcb]
  · rintro c (hc | rfl)
    · exact h.pending c hc
    · exact ⟨hdata, hno.1⟩

/-! ## Writing blocks that hold no pointers -/

/-- A set of blocks whose bytes no tree depends on. -/
structure Free (fs : Ext2Fs) (W : Nat → Prop) : Prop where
  data : ∀ b, W b → fs.IsData b
  inner : ∀ x, fs.pointers.Inner x → ¬ W (fs.pointers.node x)
  attr : ∀ n, fs.acl n ≠ 0 → ¬ W (fs.acl n)

theorem diskInode_of_data (h : fs.Sound P) (hl : SameLayout fs fs') {W : Nat → Prop} (hW : ∀ b, W b → fs.IsData b)
    (hdisk : ∀ b, ¬ W b → fs'.disk b = fs.disk b) (hn : fs.IsSlot n) : fs'.diskInode n = fs.diskInode n := by
  refine diskInode_congr hl fun c off hplace j _ => ?_
  obtain ⟨c', off', hplace', htable, -⟩ := tablePlace_spec h.toPlaced hn
  rw [hplace, Option.some.injEq, Prod.mk.injEq] at hplace'
  rw [hdisk c fun hc => (hW c hc).not_table (hplace'.1 ▸ htable)]

variable {W : Nat → Prop} (h : fs.Sound P) (hl : SameLayout fs fs') (hcache : fs'.inodeCache = fs.inodeCache)
  (hdisk : ∀ b, ¬ W b → fs'.disk b = fs.disk b)

include h hl hcache hdisk

theorem inode_of_data (hW : ∀ b, W b → fs.IsData b) (hn : fs.IsSlot n) : fs'.inode n = fs.inode n := by
  unfold Ext2Fs.inode
  rw [hcache, diskInode_of_data h hl hW hdisk hn]

theorem sameMap_of_data (hW : Free fs W) : SameMap fs fs' where
  layout := hl
  root := fun n hn _ => by rw [inode_of_data h hl hcache hdisk hW.data hn]
  fileAcl := fun n hn => by rw [inode_of_data h hl hcache hdisk hW.data hn]
  inner := fun x hx => hdisk _ (hW.inner x hx)

/-- **Writing data** keeps all block trees. -/
theorem Ext2Fs.Sound.write (hW : Free fs W) : fs'.Sound P := by
  refine h.same (sameMap_of_data h hl hcache hdisk hW) ?_ (fun b hb => hdisk b fun hw => ?_) fun m hm => hdisk _ (hW.attr m hm)
  · rw [hcache]
    exact h.cached
  · exact (hW.data b hw).not_bitmap hb

/-- The blocks written are nobody else's. -/
theorem step_write (hW : Free fs W) (hown : ∀ x, x.1.1 ≠ n → fs.pointers.Inside x → ¬ W (fs.pointers.node x)) :
    Step n fs fs' where
  layout := hl
  inodes := fun m => hl.allocated (fun b hb => hdisk b fun hw => (hW.data b hw).not_bitmap hb) .inode m
  cache := fun m _ => by rw [hcache]
  onDisk := fun m _ hs => diskInode_of_data h hl hW.data hdisk hs
  nodes := fun x _ hin => (sameMap_of_data h hl hcache hdisk hW).node hin
  bytes := fun x hx hin _ => hdisk _ (hown x hx hin)
  attrs := fun m _ hne j _ => by rw [hdisk _ (hW.attr m hne)]

end Edits

/-! ## Inodes in memory -/

section Inodes

variable {fs fs' : Ext2Fs} {P : Nat → Prop} {n : Nat} {r r' : RawInode}

theorem inode_of_cached (hr : fs.inodeCache n = some r) : fs.inode n = r := by
  rw [Ext2Fs.inode, hr]
  rfl

theorem inode_setInode_self : (fs.setInode n (some r')).inode n = r' :=
  inode_of_cached (Function.update_self ..)

theorem inode_setInode_of_ne {m : Nat} (hm : m ≠ n) (o : Option RawInode) : (fs.setInode n o).inode m = fs.inode m := by
  unfold Ext2Fs.inode
  rw [show (fs.setInode n o).inodeCache m = fs.inodeCache m from Function.update_of_ne hm ..]
  rfl

/-- An inode is changed in memory, but not its pointers. -/
theorem sameMap_setInode (hn : fs.inode n = r) (hroot : ∀ k, r'.root fs.sectors k = r.root fs.sectors k)
    (hacl : r'.fileAcl = r.fileAcl) : SameMap fs (fs.setInode n (some r')) := by
  refine ⟨sameLayout_setInode .., fun m _ k => ?_, fun m _ => ?_, fun _ _ => rfl⟩ <;> by_cases hm : m = n
  · subst hm
    rw [inode_setInode_self, hn]
    exact hroot k
  · rw [inode_setInode_of_ne hm]
  · subst hm
    rw [inode_setInode_self, hn]
    exact hacl
  · rw [inode_setInode_of_ne hm]

theorem cached_setInode (h : fs.Sound P) (hs : fs.IsSlot n) {o : Option RawInode} (m : Nat) (r : RawInode)
    (hm : (fs.setInode n o).inodeCache m = some r) : fs.IsSlot m := by
  by_cases hmn : m = n
  · rw [hmn]
    exact hs
  · rw [show (fs.setInode n o).inodeCache m = fs.inodeCache m from Function.update_of_ne hmn ..] at hm
    exact h.cached m r hm

theorem Ext2Fs.Sound.setInode (h : fs.Sound P) (hs : fs.IsSlot n) (hn : fs.inode n = r)
    (hroot : ∀ k, r'.root fs.sectors k = r.root fs.sectors k) (hacl : r'.fileAcl = r.fileAcl) :
    (fs.setInode n (some r')).Sound P :=
  h.same (sameMap_setInode hn hroot hacl) (cached_setInode h hs) (fun _ _ => rfl) fun _ _ => rfl

/-- Whatever becomes of an inode in memory, the others stay. -/
theorem step_setInode (fs : Ext2Fs) (n : Nat) (o : Option RawInode) : Step n fs (fs.setInode n o) := by
  refine ⟨sameLayout_setInode .., fun _ => Iff.rfl, fun m hm => Function.update_of_ne hm .., fun _ _ _ => rfl,
    fun x hx hin => ?_, fun _ _ _ _ => rfl, fun _ _ _ _ _ => rfl⟩
  have hroot : (fs.setInode n o).pointers.root x.1 = fs.pointers.root x.1 := by
    show (if fs.IsSlot x.1.1 then ((fs.setInode n o).inode x.1.1).root _ _ else 0) = if fs.IsSlot x.1.1 then _ else 0
    rw [inode_setInode_of_ne hx]
    rfl
  exact Pointers.node_congr hroot (fun _ _ _ => rfl) hin

/-- The bytes of an inode are read back. -/
theorem RawInode.ofBytes_blit (r : RawInode) (d : Bytes) (off : Nat) :
    RawInode.ofBytes (dropBytes (blit d off 128 r.bytes) off) = r := by
  apply RawInode.ext
  funext j
  show (if j < 128 then dropBytes (blit d off 128 r.bytes) off j else 0) = r.bytes j
  split
  · rw [dropBytes, blit_of_inside (by omega) (by omega), Nat.add_sub_cancel_left]
  · exact (r.tail j (by omega)).symm

/-- An inode is written to its place in the table. -/
theorem diskInode_write (hacc : fs.superBlock.Accepted) (hapart : fs.TablesApart) (hs : fs.IsSlot n)
    {b off len : Nat} {buf : Bytes} (hplace : fs.tablePlace n = some (b, off)) (hlen : len ≤ fs.superBlock.inodeSize)
    (hbuf : ∀ j, j < off ∨ off + len ≤ j → buf j = fs.disk b j) {m : Nat} (hm : m ≠ n) (hms : fs.IsSlot m) :
    (fs.setDisk b buf).diskInode m = fs.diskInode m := by
  refine diskInode_congr (sameLayout_setDisk fs b buf) fun c off' hplace' j hj => ?_
  by_cases hc : c = b
  · subst hc
    have hsize := hacc.inodeSize.1
    have hapart := tablePlace_apart hacc hapart hs hms (Ne.symm hm) hplace hplace'
    rw [disk_setDisk_self, hbuf]
    omega
  · rw [disk_setDisk_of_ne hc]

/-- What a write to the inode table is for the blocks: nothing. -/
theorem sameMap_table (h : fs.Sound P) {b : Nat} {buf : Bytes} (hb : fs.IsTable b)
    (hinode : ∀ m, fs.IsSlot m → (fs.setDisk b buf).inode m = fs.inode m) : SameMap fs (fs.setDisk b buf) where
  layout := sameLayout_setDisk ..
  root := fun m hm _ => by rw [hinode m hm]
  fileAcl := fun m hm => by rw [hinode m hm]
  inner := fun x hx => disk_setDisk_of_ne (fun heq => (h.tree x hx.inside hx.2).not_table (by rw [heq]; exact hb)) _

/-- **`write_inode_to_disk`** makes the inode on disk the one in memory. -/
structure WrittenBack (n : Nat) (fs fs' : Ext2Fs) : Prop where
  map : SameMap fs fs'
  step : Step n fs fs'
  cache : fs'.inodeCache = fs.inodeCache
  onDisk : fs.inodeCache n = some (fs'.diskInode n)
  disk : ∀ b, ¬ fs.IsTable b → fs'.disk b = fs.disk b

theorem Ext2Fs.Sound.writtenBack (h : fs.Sound P) (hw : WrittenBack n fs fs') : fs'.Sound P := by
  refine h.same hw.map ?_ (fun b hb => hw.disk b fun ht => (h.tables b ht).2 hb) fun m hm => hw.disk _ ?_
  · rw [hw.cache]
    exact h.cached
  · exact (h.attr m hm).1.not_table

theorem writeInodeToDisk_ok (h : fs.Sound P) {u : PUnit} (hw : writeInodeToDisk n fs = .ok u fs') :
    WrittenBack n fs fs' := by
  obtain ⟨r, hr, hw⟩ := raw_bind_ok hw
  rw [get_bind] at hw
  obtain ⟨b, off, hplace, hw⟩ := locateInode_bind_ok hw
  obtain ⟨-, hw⟩ := readFsBlock_bind_ok hw
  obtain ⟨hoff, hw⟩ := ite_panic_ok hw
  obtain ⟨-, -, rfl⟩ := writeFsBlock_ok hw
  have hs := h.cached n r hr
  have hsize := h.accepted.inodeSize.1
  obtain ⟨b', off', hplace', htable, -⟩ := tablePlace_spec h.toPlaced hs
  rw [hplace, Option.some.injEq, Prod.mk.injEq] at hplace'
  obtain ⟨rfl, rfl⟩ := hplace'
  have hother : ∀ m, m ≠ n → fs.IsSlot m → (fs.setDisk b (blit (fs.disk b) off 128 r.bytes)).diskInode m = fs.diskInode m :=
    fun m hm hms => diskInode_write h.accepted h.apart hs hplace hsize (fun j hj => blit_of_outside hj) hm hms
  have hself : (fs.setDisk b (blit (fs.disk b) off 128 r.bytes)).diskInode n = r := by
    rw [diskInode_eq (show (fs.setDisk b _).tablePlace n = some (b, off) from hplace), disk_setDisk_self]
    exact r.ofBytes_blit _ off
  have hinode : ∀ m, fs.IsSlot m → (fs.setDisk b (blit (fs.disk b) off 128 r.bytes)).inode m = fs.inode m := by
    intro m hms
    by_cases hm : m = n
    · rw [hm, inode_of_cached hr]
      exact inode_of_cached hr
    · unfold Ext2Fs.inode
      rw [hother m hm hms]
      rfl
  have hmap := sameMap_table h htable hinode
  have hdisk : ∀ c, ¬ fs.IsTable c → (fs.setDisk b (blit (fs.disk b) off 128 r.bytes)).disk c = fs.disk c :=
    fun c hc => disk_setDisk_of_ne (fun heq => hc (by rw [heq]; exact htable)) _
  refine ⟨hmap, ⟨hmap.layout, ?_, fun _ _ => rfl, hother, fun x _ hin => hmap.node hin, ?_, ?_⟩, rfl, by rw [hself]; exact hr,
    hdisk⟩
  · exact hmap.layout.allocated (fun c hc => hdisk c fun ht => (h.tables c ht).2 hc) .inode
  · exact fun x _ hin hne => hdisk _ (h.tree x hin hne).not_table
  · exact fun m _ hne j _ => by rw [hdisk _ (h.attr m hne).1.not_table]

end Inodes

/-! ## Setting one pointer -/

open Pointers (Points below)

/-- The pointer at `y` becomes `v`; the rest of the trees, the attribute blocks and the bitmaps stay. -/
structure Relinked (fs fs' : Ext2Fs) (y : (Nat × Nat) × List Nat) (v : Nat) : Prop where
  layout : SameLayout fs fs'
  points : Points fs.pointers fs'.pointers y v
  inside : fs.pointers.Inside y
  acl : fs'.acl = fs.acl
  cached : ∀ n r, fs'.inodeCache n = some r → fs.IsSlot n
  bits : ∀ b, fs.IsBitmap b → fs'.disk b = fs.disk b
  attr : ∀ n, fs.acl n ≠ 0 → fs'.disk (fs.acl n) = fs.disk (fs.acl n)

namespace Relinked

variable {fs fs' : Ext2Fs} {P : Nat → Prop} {y : (Nat × Nat) × List Nat} {v : Nat} (hr : Relinked fs fs' y v)

include hr

theorem node {x : (Nat × Nat) × List Nat} (hx : fs.pointers.Inside x) :
    fs'.pointers.node x = if x = y then v else fs.pointers.node x := hr.points.node_eq x hx

theorem refers (b : Nat) : fs'.Refers b ↔
    b ≠ 0 ∧ (b = v ∨ (∃ x, fs.pointers.Inside x ∧ x ≠ y ∧ fs.pointers.node x = b) ∨ ∃ n, fs.acl n = b) := by
  unfold Ext2Fs.Refers
  rw [hr.acl]
  refine and_congr_right fun _ => ?_
  rw [← or_assoc]
  refine or_congr_left ⟨?_, ?_⟩
  · rintro ⟨x, hx, hb⟩
    rw [inside_iff fs] at hx
    rw [hr.node hx] at hb
    by_cases hxy : x = y
    · rw [if_pos hxy] at hb
      exact .inl hb.symm
    · rw [if_neg hxy] at hb
      exact .inr ⟨x, hx, hxy, hb⟩
  · rintro (rfl | ⟨x, hx, hxy, hb⟩)
    · exact ⟨y, hr.inside, by rw [hr.node hr.inside, if_pos rfl]⟩
    · exact ⟨x, hx, by rw [hr.node hx, if_neg hxy]; exact hb⟩

theorem refers_link (hold : fs.pointers.node y = 0) (hv : v ≠ 0) (b : Nat) :
    fs'.Refers b ↔ fs.Refers b ∨ b = v := by
  rw [hr.refers]
  constructor
  · rintro ⟨hb, rfl | ⟨x, hx, -, hxb⟩ | hn⟩
    · exact .inr rfl
    · exact .inl ⟨hb, .inl ⟨x, hx, hxb⟩⟩
    · exact .inl ⟨hb, .inr hn⟩
  · rintro (⟨hb, ⟨x, hx, hxb⟩ | hn⟩ | rfl)
    · refine ⟨hb, .inr (.inl ⟨x, hx, ?_, hxb⟩)⟩
      rintro rfl
      exact hb (hxb.symm.trans hold)
    · exact ⟨hb, .inr (.inr hn)⟩
    · exact ⟨hv, .inl rfl⟩

/-- **A pointer is set** to a block that was held back. -/
theorem link (h : fs.Sound P) (hold : fs.pointers.node y = 0) (hv : P v) : fs'.Sound (fun c => P c ∧ c ≠ v) := by
  obtain ⟨hdata, hno⟩ := h.pending v hv
  have hv0 := hdata.ne_zero
  have hfresh : ∀ x, fs.pointers.Inside x → fs.pointers.node x ≠ 0 → fs.pointers.node x ≠ v :=
    fun x hx _ heq => hno ⟨hv0, .inl ⟨x, hx, heq⟩⟩
  refine h.rebuild hr.layout hr.acl hr.cached hr.attr (hr.points.unique h.unique hfresh) ?_ ?_ ?_ ?_
  · intro x hx hne
    rw [hr.node hx] at hne ⊢
    split
    · exact ⟨hdata, fun n hn heq => hno ⟨hv0, .inr ⟨n, heq.symm⟩⟩⟩
    · rename_i hxy
      rw [if_neg hxy] at hne
      exact ⟨h.tree x hx hne, fun n hn => (h.attr n hn).2 x hx⟩
  · intro b hb hin
    rw [hr.layout.allocated hr.bits]
    exact h.metadata b hb hin
  · intro b hb
    rw [hr.layout.allocated hr.bits, h.used b hb, hr.refers_link hold hv0]
    by_cases hbv : b = v
    · simp [hbv, hv]
    · simp [hbv]
  · rintro b ⟨hb, hbv⟩
    rw [hr.refers_link hold hv0]
    exact ⟨(h.pending b hb).1, not_or.2 ⟨(h.pending b hb).2, hbv⟩⟩

/-- The number of blocks of the inode. -/
theorem treeSize (hi : ∀ i ∈ y.2, i < fs.blockSize / 4) (hk : y.1.2 < 15) :
    fs'.treeSize y.1.1 + (if fs.pointers.node y = 0 then 0 else 1) = fs.treeSize y.1.1 + (if v = 0 then 0 else 1) := by
  unfold Ext2Fs.treeSize
  rw [hr.layout.blockSize]
  refine hr.points.count_eq (List.nodup_range.map fun _ _ h => (Prod.mk.inj h).2) (Pointers.mem_spots.2 ⟨?_, hr.inside, hi⟩)
  exact List.mem_map.2 ⟨y.1.2, List.mem_range.2 hk, rfl⟩

end Relinked

section Relink

variable {fs : Ext2Fs} {P : Nat → Prop} {n k : Nat} {r : RawInode} {x : (Nat × Nat) × List Nat} {i v : Nat}

theorem root_of_cached (hr : fs.inodeCache n = some r) (hs : fs.IsSlot n) (hmaps : r.mapsBlocks fs.sectors = true) (hk : k < 15) :
    fs.pointers.root (n, k) = r.block k := by
  show (if fs.IsSlot n then (fs.inode n).root fs.sectors k else 0) = _
  rw [if_pos hs, inode_of_cached hr, RawInode.root, if_pos ⟨hk, hmaps⟩]

/-- A word of `i_block` is set. -/
theorem relinked_setRoot (h : fs.Sound P) (hr : fs.inodeCache n = some r) (hmaps : r.mapsBlocks fs.sectors = true) (hk : k < 15)
    (hv : v < 2 ^ 32) (hleaf : 12 ≤ k → r.block k ≠ 0 → ∀ i, fs.pointers.child (r.block k) i = 0)
    (hleaf' : v ≠ 0 → 12 ≤ k → ∀ i, fs.pointers.child v i = 0) :
    Relinked fs (fs.setInode n (some (r.setBlock k v))) ((n, k), []) v := by
  have hs := h.cached n r hr
  have hsame : RawInode.SameFields r (r.setBlock k v) := RawInode.sameFields_setBlock hk
  have hmaps' : (r.setBlock k v).mapsBlocks fs.sectors = true := by rw [hsame.mapsBlocks, hmaps]
  have hcached' : (fs.setInode n (some (r.setBlock k v))).inodeCache n = some (r.setBlock k v) := Function.update_self ..
  refine ⟨sameLayout_setInode .., ?_, Nat.zero_le _, ?_, cached_setInode h hs, fun _ _ => rfl, fun _ _ => rfl⟩
  · refine Pointers.points_setRoot rfl (fun l hl => ?_) (fun _ _ _ => rfl) (fun hd hne => ?_) (fun hne hd => ?_) ?_
    · by_cases hln : l.1 = n
      · show (if fs.IsSlot l.1 then ((fs.setInode n (some (r.setBlock k v))).inode l.1).root fs.sectors l.2 else 0) =
          if fs.IsSlot l.1 then _ else 0
        rw [hln, if_pos hs, if_pos hs, inode_setInode_self, inode_of_cached hr]
        unfold RawInode.root
        rw [hmaps, hmaps']
        by_cases hl15 : l.2 < 15
        · rw [if_pos ⟨hl15, rfl⟩, if_pos ⟨hl15, rfl⟩, RawInode.block_setBlock_of_ne ?_ hl15]
          rintro hlk
          exact hl (Prod.ext hln hlk)
        · rw [if_neg fun hc => hl15 hc.1, if_neg fun hc => hl15 hc.1]
      · exact (step_setInode fs n _).nodes (l, []) hln (Nat.zero_le _)
    · rw [root_of_cached hr hs hmaps hk] at hne ⊢
      exact hleaf (Nat.le_of_not_lt fun hlt => by simp only [Ext2Fs.pointers] at hd; omega) hne
    · exact hleaf' hne (Nat.le_of_not_lt fun hlt => by simp only [Ext2Fs.pointers] at hd; omega)
    · exact (root_of_cached hcached' hs hmaps' hk).trans (RawInode.block_setBlock_self hk hv)
  · funext m
    show (if fs.IsSlot m then ((fs.setInode n (some (r.setBlock k v))).inode m).fileAcl else 0) = if fs.IsSlot m then _ else 0
    by_cases hm : m = n
    · rw [hm, inode_setInode_self, inode_of_cached hr, hsame.fileAcl]
    · rw [inode_setInode_of_ne hm]

/-- A word of an indirect block is set. -/
theorem relinked_setChild (h : fs.Sound P) (hx : fs.pointers.Inner x) (hi : i < fs.blockSize / 4) (hv : v < 2 ^ 32)
    (hne : v ≠ fs.pointers.node x)
    (hleaf : fs.pointers.Inner (below x i) → ∀ j, fs.pointers.child (fs.pointers.node (below x i)) j = 0)
    (hleaf' : v ≠ 0 → x.2.length + 1 < fs.pointers.depth x.1 → ∀ j, fs.pointers.child v j = 0) :
    Relinked fs (fs.setDisk (fs.pointers.node x) (putLe (fs.disk (fs.pointers.node x)) (i * 4) 4 v)) (below x i) v := by
  have hdata := h.tree x hx.inside hx.2
  have hl := sameLayout_setDisk fs (fs.pointers.node x) (putLe (fs.disk (fs.pointers.node x)) (i * 4) 4 v)
  have hinode : ∀ m, fs.IsSlot m →
      (fs.setDisk (fs.pointers.node x) (putLe (fs.disk (fs.pointers.node x)) (i * 4) 4 v)).inode m = fs.inode m :=
    fun m hm => inode_of_data (W := fun b => b = fs.pointers.node x) h hl rfl
      (fun b hb => disk_setDisk_of_ne hb _) (fun b hb => hb ▸ hdata) hm
  refine ⟨hl, ?_, Pointers.inside_below.2 hx.1, ?_, h.cached, fun b hb => disk_setDisk_of_ne ?_ _,
    fun m hm => disk_setDisk_of_ne ?_ _⟩
  · refine Pointers.points_setChild h.unique rfl (fun l => ?_) hx (fun z hz j hzj => ?_) hleaf (fun h0 hlen j => ?_) ?_
    · show (if fs.IsSlot l.1 then _ else 0) = if fs.IsSlot l.1 then _ else 0
      by_cases hl : fs.IsSlot l.1
      · rw [if_pos hl, if_pos hl, hinode l.1 hl]
        rfl
      · rw [if_neg hl, if_neg hl]
    · by_cases hzx : fs.pointers.node z = fs.pointers.node x
      · have hji := hzj.resolve_left (not_not.2 hzx)
        show (if _ then leNat ((fs.setDisk _ _).disk _) _ _ else 0) = if _ then _ else 0
        rw [hzx, disk_setDisk_self, leNat_putLe_of_disjoint v (by omega)]
        rfl
      · exact hl.child (disk_setDisk_of_ne hzx _) j
    · rw [hl.child (disk_setDisk_of_ne hne _)]
      exact hleaf' h0 hlen j
    · show (if i < fs.blockSize / 4 then leNat ((fs.setDisk _ _).disk _) _ _ else 0) = v
      rw [if_pos hi, disk_setDisk_self, leNat_putLe_of_lt (by simpa using hv)]
  · funext m
    show (if fs.IsSlot m then _ else 0) = if fs.IsSlot m then _ else 0
    by_cases hm : fs.IsSlot m
    · rw [if_pos hm, if_pos hm, hinode m hm]
    · rw [if_neg hm, if_neg hm]
  · rintro rfl
    exact hdata.not_bitmap hb
  · exact fun heq => (h.attr m hm).2 x hx.inside heq.symm

/-- The others do not notice. -/
theorem step_setChild (h : fs.Sound P) (hx : fs.pointers.Inner x) {buf : Bytes}
    (hr : Relinked fs (fs.setDisk (fs.pointers.node x) buf) (below x i) v) :
    Step x.1.1 fs (fs.setDisk (fs.pointers.node x) buf) where
  layout := hr.layout
  inodes := hr.layout.allocated hr.bits .inode
  cache := fun _ _ => rfl
  onDisk := fun m _ hs => diskInode_of_data (W := fun b => b = fs.pointers.node x) h hr.layout
    (fun b hb => hb ▸ h.tree x hx.inside hx.2) (fun b hb => disk_setDisk_of_ne hb _) hs
  nodes := fun z hz hin => by
    rw [hr.node hin, if_neg]
    rintro rfl
    exact hz rfl
  bytes := fun z hz hin hne => disk_setDisk_of_ne (fun heq => hz (by rw [h.unique z x hin hx.inside hne heq])) _
  attrs := fun m _ hne j _ => by rw [hr.attr m hne]

end Relink

end Koros.Ext2
