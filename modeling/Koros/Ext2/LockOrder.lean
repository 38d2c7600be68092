import Koros.Ext2.Locking
import Mathlib.Data.Set.Insert

/-!
# The lock discipline of ext2

Outside of a transaction an operation holds at most one guard when it asks for another: the cache for `self_ref`, and
an inode for the superblock if it is a regular file. Inside a transaction a task may nest guards as it likes, because
it is the only one to do so, as long as it never asks for a lock it holds and asks for an inode under the superblock
only in the ancestor walk, for an inode that is not a regular file.

Two calls break this: `Ext2INode::read` outside of a transaction takes the superblock before the descriptors, against
the allocators, and inside the ancestor walk it asks for the superblock the walk holds. Apart from them every operation
keeps to the discipline (`op_keeps`).
-/

set_option autoImplicit false

namespace Koros.Ext2.Locking

open Koros.Locks Koros.Locks.Discipline

/-! ## The discipline -/

abbrev Stack := List (Frame Data Call)

/-- Which lock may be asked for over the open guards. -/
inductive CanLock : Stack → Lock → Prop where
  | idle (l : Lock) : CanLock [] l
  | upgrade (c : InodeCache) : CanLock [.guard .inodeCache c] .selfRef
  | sized (obj mode : Nat) (h : isRegular mode = true) : CanLock [.guard (.raw obj) mode] .superBlock
  | transaction (S : Stack) (l : Lock) (hgate : .metadataTransaction ∈ guards S) (hleaf : .selfRef ∉ guards S)
      (hnew : l ∉ guards S) (hraw : ∀ obj, l = .raw obj → .superBlock ∈ guards S → Frame.call (.walk obj) ∈ S) :
      CanLock S l

/-- The walk runs inside a transaction. -/
def Entry (S : Stack) : Call → Prop
  | .read _ => True
  | .walk _ => .metadataTransaction ∈ guards S

/-- `Ext2INode::read` is let through inside a transaction and not under the superblock guard. -/
def Allowed (S : Stack) : Call → Prop
  | .read _ => .metadataTransaction ∈ guards S ∧ .superBlock ∉ guards S
  | .walk _ => True

/-- The walk looks `..` up in inodes that are not regular files. -/
def Fact : Call → (l : Lock) → Data l → Prop
  | .walk obj, .raw obj', mode => obj' = obj → isRegular mode = false
  | _, _, _ => True

/-- The discipline of the filesystem, gated by the transaction. -/
def ext2 : Discipline Data Call where
  gate := .metadataTransaction
  canLock := CanLock
  entry := Entry
  allowed := Allowed
  fact := Fact
  gate_mem := by
    intro S e hentry hallowed
    cases e with
    | read ino => exact hallowed.1
    | walk obj => exact hentry

/-! ## Footprints inside a transaction -/

/-- The locks of `F` may be taken over `S`, in a transaction. -/
structure Free (F : Set Lock) (S : Stack) : Prop where
  gate : Lock.metadataTransaction ∈ guards S
  leaf : Lock.selfRef ∉ guards S
  new : ∀ l ∈ F, l ∉ guards S
  raws : ∀ obj, Lock.raw obj ∈ F → Lock.superBlock ∉ guards S

theorem Free.can {F : Set Lock} {S : Stack} (h : Free F S) {l : Lock} (hl : l ∈ F) : ext2.canLock S l := by
  apply CanLock.transaction S l h.gate h.leaf (h.new l hl)
  rintro obj rfl hsb
  exact absurd hsb (h.raws obj hl)

theorem Free.mono {F G : Set Lock} {S : Stack} (h : Free F S) (hG : ∀ l ∈ G, l ∈ F) : Free G S :=
  ⟨h.gate, h.leaf, fun l hl => h.new l (hG l hl), fun obj hobj => h.raws obj (hG _ hobj)⟩

/-- A further guard leaves the locks of `F` other than its own. -/
theorem Free.guard {F G : Set Lock} {S : Stack} (h : Free F S) (l : Lock) (v : Data l) (hleaf : l ≠ .selfRef)
    (hG : ∀ l' ∈ G, l' ∈ F ∧ l' ≠ l) (hraw : l = .superBlock → ∀ obj, Lock.raw obj ∉ G) :
    Free G (.guard l v :: S) := by
  constructor
  · simp [h.gate]
  · simpa [h.leaf] using Ne.symm hleaf
  · intro l' hl'
    obtain ⟨hF, hne⟩ := hG l' hl'
    simpa [hne] using h.new l' hF
  · intro obj hobj
    have hsb : l ≠ .superBlock := fun heq => hraw heq obj hobj
    simpa [Ne.symm hsb] using h.raws obj (hG _ hobj).1

/-- The locks of the allocators. -/
def blocks : Set Lock := {.blockGroups, .superBlock, .cache}

/-- Every lock but the transaction's own. -/
def inner : Set Lock := {l | l ≠ .metadataTransaction}

theorem Free.toBlocks {S : Stack} (h : Free inner S) : Free blocks S := by
  apply h.mono
  rintro l (rfl | rfl | rfl) <;> simp [inner]

theorem free_transaction : Free inner [.guard .metadataTransaction ()] := by
  constructor <;> simp +contextual [inner]

/-! ## Blocks and bitmaps -/

variable {S : Stack}

theorem touch_keeps {l : Lock} (h : ext2.canLock S l) : ext2.Keeps S (touch l) :=
  .locking h fun _ _ => .pure _

theorem readFsBlock_keeps (h : ext2.canLock S .cache) : ext2.Keeps S readFsBlock :=
  .locking h fun _ _ => .fallible

theorem writeFsBlock_keeps (h : ext2.canLock S .cache) : ext2.Keeps S writeFsBlock :=
  .bind .fallible fun _ => .locking h fun _ _ => .fallible

theorem readFsBlocks_keeps (h : ext2.canLock S .cache) : ext2.Keeps S readFsBlocks :=
  .bind (.locking h fun _ _ => .fallible) fun _ => .fallible

theorem writeFsBlocks_keeps (h : ext2.canLock S .cache) : ext2.Keeps S writeFsBlocks :=
  .bind .fallible fun _ => .bind (touch_keeps h) fun _ => .fallible

theorem Free.cache (h : Free blocks S) : ext2.canLock S .cache := h.can (by simp [blocks])

theorem Free.superBlock (h : Free blocks S) : ext2.canLock S .superBlock := h.can (by simp [blocks])

theorem Free.blockGroups (h : Free blocks S) : ext2.canLock S .blockGroups := h.can (by simp [blocks])

/-- The order of the allocators: descriptors, superblock, cache. -/
theorem locking_counts_keeps {α : Type} {m : LockM α} (h : Free blocks S)
    (hm : ∀ S', ext2.canLock S' .cache → ext2.Keeps S' m) :
    ext2.Keeps S (locking .blockGroups fun _ => locking .superBlock fun _ => m) := by
  refine .locking h.blockGroups fun v _ => ?_
  have hg : Free {.superBlock, .cache} (.guard .blockGroups v :: S) :=
    h.guard _ v (by simp) (by simp [blocks]) (by simp)
  refine .locking (hg.can (by simp)) fun w _ => hm _ ?_
  have hs : Free {.cache} (.guard .superBlock w :: .guard .blockGroups v :: S) :=
    hg.guard _ w (by simp) (by simp) (by simp)
  exact hs.can (by simp)

theorem allocScan_keeps (h : Free blocks S) : ext2.Keeps S allocScan := by
  refine .bind .fallible fun _ => .bind ?_ fun _ => .fallible
  apply locking_counts_keeps h
  intro S' hc
  refine .loop (.maybe (.bind (readFsBlock_keeps hc) fun _ => .maybe ?_))
  exact .bind .fallible fun _ => writeFsBlock_keeps hc

theorem allocInode_keeps (h : Free blocks S) : ext2.Keeps S allocInode :=
  .bind (allocScan_keeps h) fun _ => .anyNat

theorem clearBit_keeps (h : Free blocks S) : ext2.Keeps S clearBit := by
  apply locking_counts_keeps h
  intro S' hc
  refine .bind .fallible fun _ => .bind (readFsBlock_keeps hc) fun _ => ?_
  exact .bind .fallible fun _ => writeFsBlock_keeps hc

theorem freeBlock_keeps (h : Free blocks S) : ext2.Keeps S freeBlock := by
  refine .bind .fallible fun _ => .bind (touch_keeps h.superBlock) fun _ => ?_
  exact .bind .fallible fun _ => clearBit_keeps h

/-- Replacing the inode cache costs no fact. -/
theorem canSet_inodeCache (c c' : InodeCache) : ext2.CanSet S .inodeCache c c' := by
  refine .inl fun e _ => ?_
  cases e <;> trivial

theorem invalidateInode_keeps (h : ext2.canLock S .inodeCache) (ino : Nat) : ext2.Keeps S (invalidateInode ino) :=
  .withGuard h fun _ _ => ⟨rfl, fun _ _ _ => canSet_inodeCache _ _⟩

theorem freeInode_keeps (h : Free inner S) (ino : Nat) : ext2.Keeps S (freeInode ino) := by
  refine .bind .fallible fun _ => .bind .fallible fun _ => ?_
  refine .bind (touch_keeps h.toBlocks.superBlock) fun _ => .bind (clearBit_keeps h.toBlocks) fun _ => ?_
  exact invalidateInode_keeps (h.can (by simp [inner])) ino

theorem locking_blockGroups_keeps (h : Free blocks S) :
    ext2.Keeps S (locking .blockGroups fun _ => (fallible : LockM Unit)) :=
  .locking h.blockGroups fun _ _ => .fallible

theorem initInode_keeps (h : Free blocks S) : ext2.Keeps S initInode := by
  refine .bind .fallible fun _ => .bind (touch_keeps h.superBlock) fun _ => ?_
  refine .bind (locking_blockGroups_keeps h) fun _ => ?_
  exact .bind (readFsBlock_keeps h.cache) fun _ => writeFsBlock_keeps h.cache

theorem adjustUsedDirs_keeps (h : Free blocks S) : ext2.Keeps S adjustUsedDirs :=
  .bind (touch_keeps h.superBlock) fun _ => .maybe (touch_keeps h.blockGroups)

/-! ## Reading an inode, inside and outside of a transaction -/

/-- The guards under which an inode may be read: none, those of a transaction, or those of the ancestor walk. -/
structure Reads (n : Handle) (S : Stack) : Prop where
  raw : ext2.canLock S (.raw n.obj)
  cache : ext2.canLock S .cache
  sized : ∀ mode : Nat, ext2.Fits S (.raw n.obj) mode → isRegular mode = true →
    ext2.canLock (.guard (.raw n.obj) mode :: S) .superBlock

theorem reads_nil (n : Handle) : Reads n [] :=
  ⟨.idle _, .idle _, fun mode _ hreg => .sized n.obj mode hreg⟩

theorem Free.reads (h : Free inner S) (n : Handle) : Reads n S := by
  refine ⟨h.can (by simp [inner]), h.can (by simp [inner]), fun mode _ _ => ?_⟩
  have hg : Free {.superBlock} (.guard (.raw n.obj) mode :: S) :=
    h.guard (.raw n.obj) mode (by simp) (by simp [inner]) (by simp)
  exact hg.can (by simp)

theorem hasLargeFile_keeps (h : ext2.canLock S .superBlock) : ext2.Keeps S hasLargeFile :=
  .locking h fun _ _ => .any

theorem size_keeps {n : Handle} (h : Reads n S) : ext2.Keeps S (size n) := by
  refine .locking h.raw fun mode hfit => .ite (fun hreg => ?_) fun _ => .pure _
  exact .bind (hasLargeFile_keeps (h.sized mode hfit hreg)) fun _ => .pure _

theorem readIndirectEntry_keeps (h : ext2.canLock S .cache) : ext2.Keeps S readIndirectEntry :=
  .bind (readFsBlock_keeps h) fun _ => .fallible

theorem writeIndirectEntry_keeps (h : ext2.canLock S .cache) : ext2.Keeps S writeIndirectEntry :=
  .bind (readFsBlock_keeps h) fun _ => .bind .fallible fun _ => writeFsBlock_keeps h

theorem followIndirect_keeps (h : ext2.canLock S .cache) (levels : Nat) : ext2.Keeps S (followIndirect levels) := by
  induction levels with
  | zero => exact .pure _
  | succ levels ih => exact .maybe (.bind (readIndirectEntry_keeps h) fun _ => ih)

theorem resolveBlockId_keeps {n : Handle} (h : Reads n S) : ext2.Keeps S (resolveBlockId n) :=
  .bind (touch_keeps h.raw) fun _ => followIndirect_keeps h.cache 3

theorem readAtSlow_keeps {n : Handle} (h : Reads n S) : ext2.Keeps S (readAtSlow n) :=
  .bind (resolveBlockId_keeps h) fun _ => .maybe (readFsBlock_keeps h.cache)

theorem readAt_keeps {n : Handle} (h : Reads n S) : ext2.Keeps S (readAt n) := by
  refine .bind (size_keeps h) fun _ => .loop (.branch (readAtSlow_keeps h) ?_)
  refine .bind (resolveBlockId_keeps h) fun _ => .branch (readAtSlow_keeps h) ?_
  exact .bind (.loop (resolveBlockId_keeps h)) fun _ => readFsBlocks_keeps h.cache

theorem mode_keeps {n : Handle} (h : ext2.canLock S (.raw n.obj)) :
    ext2.Keeps S (locking (.raw n.obj) fun mode => (pure mode : LockM Nat)) :=
  .locking h fun _ _ => .pure _

theorem dirIterator_keeps {n : Handle} (h : Reads n S) : ext2.Keeps S (dirIterator n) := by
  refine .bind (mode_keeps h.raw) fun mode => .ite (fun _ => ?_) fun _ => .fail
  exact .bind (touch_keeps h.raw) fun _ => .maybe (readAt_keeps h)

theorem dirLookup_keeps {n : Handle} (h : Reads n S) : ext2.Keeps S (dirLookup n) :=
  .bind (dirIterator_keeps h) fun _ => .bind .fallible fun _ => .anyNat

/-! ## The inode cache -/

/-- The guards under which the inode cache is looked into: none, or those of a transaction, with the superblock or
without. -/
inductive Looks : Stack → Prop where
  | idle : Looks []
  | transaction {S : Stack} (hgate : .metadataTransaction ∈ guards S) (hleaf : .selfRef ∉ guards S)
      (hcache : .inodeCache ∉ guards S) (hgroups : .blockGroups ∉ guards S) (hblocks : .cache ∉ guards S) : Looks S

theorem Looks.canLock (h : Looks S) : ext2.canLock S .inodeCache := by
  cases h with
  | idle => exact .idle _
  | transaction hgate hleaf hcache _ _ => exact .transaction S _ hgate hleaf hcache (by simp)

theorem Looks.canUpgrade (h : Looks S) (c : InodeCache) : ext2.canLock (.guard .inodeCache c :: S) .selfRef := by
  cases h with
  | idle => exact .upgrade c
  | transaction hgate hleaf _ _ _ => exact .transaction _ _ (by simp [hgate]) (by simp [hleaf]) (by simp [hleaf]) (by simp)

/-- Where `Ext2INode::read` is allowed, its locks are free. -/
theorem Looks.free (h : Looks S) {c : InodeCache} {ino : Nat} (ha : Allowed (.guard .inodeCache c :: S) (.read ino)) :
    Free blocks (.call (.read ino) :: .guard .inodeCache c :: S) := by
  obtain ⟨hgate, hsb⟩ := ha
  cases h with
  | idle => simp at hgate
  | transaction _ hleaf _ hgroups hblocks =>
    refine ⟨by simpa using hgate, by simpa using hleaf, ?_, by simp [blocks]⟩
    rintro l (rfl | rfl | rfl)
    · simpa using hgroups
    · simpa using hsb
    · simpa using hblocks

/-- `Ext2INode::read`: superblock, descriptors, cache. -/
theorem read_keeps (h : Free blocks S) : ext2.Keeps S read := by
  refine .bind .fallible fun _ => .locking h.superBlock fun v _ => ?_
  have hs : Free {.blockGroups, .cache} (.guard .superBlock v :: S) :=
    h.guard _ v (by simp) (by simp [blocks]) (by simp)
  refine .locking (hs.can (by simp)) fun w _ => .bind .fallible fun _ => readFsBlock_keeps ?_
  have hg : Free {.cache} (.guard .blockGroups w :: .guard .superBlock v :: S) :=
    hs.guard _ w (by simp) (by simp) (by simp)
  exact hg.can (by simp)

theorem getInodeMiss_keeps (h : Looks S) (ino : Nat) (c : InodeCache) :
    ext2.Keeps (.guard .inodeCache c :: S) (getInodeMiss ino c) := by
  refine .bind (.locking (h.canUpgrade c) fun _ _ => .fallible) fun _ => ?_
  exact .bind (.calling trivial fun ha => read_keeps (h.free ha)) fun _ => .pure _

theorem getInode_keeps (h : Looks S) (ino : Nat) : ext2.Keeps S (getInode ino) := by
  apply Keeps.withGuard h.canLock
  intro c _
  have hset : ∀ (S' : Stack) (r : Option (Handle × InodeCache)), S' = .guard .inodeCache c :: S →
      S' = .guard .inodeCache c :: S ∧ ∀ a v', r = some (a, v') → ext2.CanSet S .inodeCache c v' :=
    fun S' r hS => ⟨hS, fun _ _ _ => canSet_inodeCache _ _⟩
  have hmiss := getInodeMiss_keeps h ino c
  apply Ok.mono hset
  cases hc : c.entry ino with
  | some obj => exact Keeps.branch (.pure _) hmiss
  | none => exact hmiss

theorem Free.looks (h : Free inner S) : Looks S :=
  .transaction h.gate h.leaf (h.new _ (by simp [inner])) (h.new _ (by simp [inner])) (h.new _ (by simp [inner]))

/-! ## The ancestor walk -/

/-- The guards of the walk: the transaction and the superblock. -/
structure Walks (S : Stack) : Prop where
  gate : Lock.metadataTransaction ∈ guards S
  others : ∀ l ∈ guards S, l = .metadataTransaction ∨ l = .superBlock

theorem Walks.looks (h : Walks S) : Looks S := by
  apply Looks.transaction h.gate <;> intro hl <;> simpa using h.others _ hl

/-- An inode the walk visits is not a regular file, so reading it does not ask for the superblock again. -/
theorem Walks.reads (h : Walks S) (n : Handle) : Reads n (.call (.walk n.obj) :: S) := by
  have hnot : ∀ l, l ≠ .metadataTransaction → l ≠ .superBlock → l ∉ guards S := by
    intro l h₁ h₂ hl
    exact (h.others l hl).elim h₁ h₂
  constructor
  · refine .transaction _ _ (by simpa using h.gate) (by simpa using hnot _ (by simp) (by simp))
      (by simpa using hnot _ (by simp) (by simp)) ?_
    intro obj hobj _
    cases hobj
    simp
  · exact .transaction _ _ (by simpa using h.gate) (by simpa using hnot _ (by simp) (by simp))
      (by simpa using hnot _ (by simp) (by simp)) (by simp)
  · intro mode hfit hreg
    have hnreg : isRegular mode = false := hfit (.walk n.obj) (by simp) rfl
    rw [hreg] at hnreg
    cases hnreg

theorem walkUp_keeps (h : Walks S) (ancestor rounds cur : Nat) : ext2.Keeps S (walkUp ancestor rounds cur) := by
  induction rounds generalizing cur with
  | zero => exact .pure _
  | succ rounds ih =>
    refine .ite (fun _ => .pure _) fun _ => .ite (fun _ => .pure _) fun _ => ?_
    refine .bind (getInode_keeps h.looks cur) fun dir => ?_
    refine .bind (.calling h.gate fun _ => dirLookup_keeps (h.reads dir)) fun parent => ?_
    exact .ite (fun _ => .pure _) fun _ => ih parent

/-- The walk keeps to the discipline whatever it finds, as long as its calls are allowed. -/
theorem dirIsAncestorOrSelf_keeps (ancestor start : Nat) :
    ext2.Keeps [.guard .metadataTransaction ()] (dirIsAncestorOrSelf ancestor start) := by
  refine .locking (free_transaction.can (by simp [inner])) fun v _ => .bind .anyNat fun inodesCount => ?_
  exact walkUp_keeps ⟨by simp, by simp⟩ ancestor (inodesCount + 1) start

/-! ## Writing, inside a transaction -/

theorem Free.raw (h : Free inner S) (n : Handle) : ext2.canLock S (.raw n.obj) := h.can (by simp [inner])

theorem zeroOrFree_keeps (h : Free blocks S) : ext2.Keeps S zeroOrFree := by
  refine .bind (.attempt (writeFsBlock_keeps h.cache)) fun r => ?_
  cases r with
  | some _ => exact .pure _
  | none => exact .bind (.attempt (freeBlock_keeps h)) fun _ => .fail

theorem allocAndZeroBlock_keeps (h : Free blocks S) : ext2.Keeps S allocAndZeroBlock :=
  .bind (touch_keeps h.superBlock) fun _ => .bind (allocScan_keeps h) fun _ => zeroOrFree_keeps h

theorem linkLevels_keeps (h : Free blocks S) (levels : Nat) : ext2.Keeps S (linkLevels levels) := by
  induction levels with
  | zero => exact .pure _
  | succ levels ih =>
    refine .bind (readIndirectEntry_keeps h.cache) fun _ => .bind (.maybe ?_) fun _ => ih
    exact .bind (allocAndZeroBlock_keeps h) fun _ => writeIndirectEntry_keeps h.cache

/-- The allocators run under the guard of the inode. -/
theorem linkIndirect_keeps (h : Free inner S) (n : Handle) (levels : Nat) : ext2.Keeps S (linkIndirect n levels) := by
  refine .bind (.locking (h.raw n) fun mode _ => .maybe (allocAndZeroBlock_keeps ?_)) fun _ => ?_
  · apply h.guard (.raw n.obj) mode (by simp)
    · rintro l (rfl | rfl | rfl) <;> simp [inner]
    · simp
  · exact .bind (linkLevels_keeps h.toBlocks levels) fun _ => writeIndirectEntry_keeps h.toBlocks.cache

theorem allocateBlockForOffset_keeps (h : Free inner S) (n : Handle) (zeroData : Bool) :
    ext2.Keeps S (allocateBlockForOffset n zeroData) := by
  refine .bind (resolveBlockId_keeps (h.reads n)) fun _ => .maybe ?_
  refine .bind (touch_keeps h.toBlocks.superBlock) fun _ => .bind (allocScan_keeps h.toBlocks) fun _ => ?_
  refine .bind (.ite (fun _ => zeroOrFree_keeps h.toBlocks) fun _ => .pure _) fun _ => ?_
  refine .branch (touch_keeps (h.raw n)) (.branch (linkIndirect_keeps h n 0) ?_)
  exact .branch (linkIndirect_keeps h n 1) (linkIndirect_keeps h n 2)

theorem writeInodeToDisk_keeps (h : Free inner S) (n : Handle) : ext2.Keeps S (writeInodeToDisk n) := by
  refine .bind (touch_keeps (h.raw n)) fun _ => .bind (touch_keeps h.toBlocks.superBlock) fun _ => ?_
  refine .bind (locking_blockGroups_keeps h.toBlocks) fun _ => ?_
  exact .bind (readFsBlock_keeps h.toBlocks.cache) fun _ => writeFsBlock_keeps h.toBlocks.cache

theorem countIndirect_keeps (h : ext2.canLock S .cache) (level : Nat) : ext2.Keeps S (countIndirect level) := by
  induction level with
  | zero => exact .pure _
  | succ level ih => exact .maybe (.bind (readFsBlock_keeps h) fun _ => .loop ih)

theorem recomputeIBlocks_keeps (h : Free inner S) (n : Handle) : ext2.Keeps S (recomputeIBlocks n) := by
  have hcount := countIndirect_keeps h.toBlocks.cache
  refine .bind (touch_keeps (h.raw n)) fun _ => .bind (hcount 1) fun _ => ?_
  exact .bind (hcount 2) fun _ => .bind (hcount 3) fun _ => touch_keeps (h.raw n)

theorem freeIndirect_keeps (h : Free blocks S) (level : Nat) : ext2.Keeps S (freeIndirect level) := by
  induction level with
  | zero => exact freeBlock_keeps h
  | succ level ih =>
    refine .maybe (.bind (readFsBlock_keeps h.cache) fun _ => ?_)
    exact .bind (.loop (.maybe ih)) fun _ => freeBlock_keeps h

theorem freeAllBlocks_keeps (h : Free inner S) (n : Handle) : ext2.Keeps S (freeAllBlocks n) := by
  have hfree := freeIndirect_keeps h.toBlocks
  refine .bind (touch_keeps (h.raw n)) fun _ => ?_
  refine .bind ((Keeps.maybe (freeBlock_keeps h.toBlocks)).repeatN 12) fun _ => ?_
  exact .bind (hfree 1) fun _ => .bind (hfree 2) fun _ => .bind (hfree 3) fun _ => touch_keeps (h.raw n)

theorem freeAndClearLogical_keeps (h : Free inner S) (n : Handle) : ext2.Keeps S (freeAndClearLogical n) := by
  refine .bind (resolveBlockId_keeps (h.reads n)) fun _ => .bind (.maybe (freeBlock_keeps h.toBlocks)) fun _ => ?_
  refine .bind (touch_keeps (h.raw n)) fun _ => .maybe ?_
  refine .bind (followIndirect_keeps h.toBlocks.cache 2) fun _ => ?_
  exact .maybe (writeIndirectEntry_keeps h.toBlocks.cache)

theorem pruneIndirect_keeps (h : Free blocks S) (level : Nat) : ext2.Keeps S (pruneIndirect level) := by
  induction level with
  | zero => exact .branch (.pure _) (.bind (readFsBlock_keeps h.cache) fun _ => .any)
  | succ level ih =>
    refine .branch (.pure _) (.bind (readFsBlock_keeps h.cache) fun _ => ?_)
    refine .bind (.loop (.maybe ?_)) fun _ => .bind (.maybe (writeFsBlock_keeps h.cache)) fun _ => .any
    exact .bind ih fun _ => .ite (fun _ => freeBlock_keeps h) fun _ => .pure _

theorem pruneSlot_keeps (h : Free inner S) (n : Handle) (level : Nat) : ext2.Keeps S (pruneSlot n level) := by
  refine .bind (touch_keeps (h.raw n)) fun _ => .maybe (.bind (pruneIndirect_keeps h.toBlocks level) fun _ => ?_)
  exact .ite (fun _ => .bind (freeBlock_keeps h.toBlocks) fun _ => touch_keeps (h.raw n)) fun _ => .pure _

theorem pruneEmptyIndirects_keeps (h : Free inner S) (n : Handle) : ext2.Keeps S (pruneEmptyIndirects n) :=
  .bind (pruneSlot_keeps h n 0) fun _ => .bind (pruneSlot_keeps h n 1) fun _ => pruneSlot_keeps h n 2

theorem truncateTo_keeps (h : Free inner S) (n : Handle) : ext2.Keeps S (truncateTo n) := by
  have hsize := size_keeps (h.reads n)
  refine .bind hsize fun _ => .bind (.branch ?_ (.branch hsize ?_)) fun _ => ?_
  · exact .bind (freeAllBlocks_keeps h n) fun _ => hsize
  · refine .bind (.loop (freeAndClearLogical_keeps h n)) fun _ => .bind (pruneEmptyIndirects_keeps h n) fun _ => ?_
    exact .bind hsize fun _ => recomputeIBlocks_keeps h n
  · exact .bind (touch_keeps (h.raw n)) fun _ => writeInodeToDisk_keeps h n

theorem writeAtLocked_keeps (h : Free inner S) (n : Handle) : ext2.Keeps S (writeAtLocked n) := by
  have hcache := h.toBlocks.cache
  refine .maybe (.bind (.loop (.branch ?_ ?_)) fun _ => ?_)
  · refine .bind (allocateBlockForOffset_keeps h n false) fun _ => ?_
    refine .bind (.loop (.bind (allocateBlockForOffset_keeps h n false) fun _ => ?_)) fun _ =>
      writeFsBlocks_keeps hcache
    exact .maybe (writeFsBlocks_keeps hcache)
  · refine .bind (allocateBlockForOffset_keeps h n true) fun _ => ?_
    exact .bind (readFsBlock_keeps hcache) fun _ => writeFsBlock_keeps hcache
  · refine .bind (size_keeps (h.reads n)) fun _ => .bind (.maybe (size_keeps (h.reads n))) fun _ => ?_
    exact .bind (touch_keeps (h.raw n)) fun _ => writeInodeToDisk_keeps h n

theorem demoteFromHtree_keeps (h : Free inner S) (n : Handle) : ext2.Keeps S (demoteFromHtree n) :=
  .bind (touch_keeps (h.raw n)) fun _ => .maybe (.bind (touch_keeps (h.raw n)) fun _ => writeInodeToDisk_keeps h n)

theorem addDirEntry_keeps (h : Free inner S) (n : Handle) : ext2.Keeps S (addDirEntry n) := by
  refine .bind .fallible fun _ => .bind (demoteFromHtree_keeps h n) fun _ => ?_
  refine .bind (.locking h.toBlocks.superBlock fun _ _ => .any) fun _ => .bind (touch_keeps (h.raw n)) fun _ => ?_
  exact .bind (.maybe (readAt_keeps (h.reads n))) fun _ => writeAtLocked_keeps h n

theorem removeDirEntry_keeps (h : Free inner S) (n : Handle) : ext2.Keeps S (removeDirEntry n) := by
  refine .bind (demoteFromHtree_keeps h n) fun _ => .bind (touch_keeps (h.raw n)) fun _ => .bind .fallible fun _ => ?_
  exact .bind (readAt_keeps (h.reads n)) fun _ => .bind .fallible fun _ => writeAtLocked_keeps h n

theorem releaseXattrBlock_keeps (h : Free inner S) (n : Handle) : ext2.Keeps S (releaseXattrBlock n) := by
  have hcache := h.toBlocks.cache
  refine .bind (touch_keeps (h.raw n)) fun _ => .maybe (.bind (readFsBlock_keeps hcache) fun _ => ?_)
  exact .bind (.branch (writeFsBlock_keeps hcache) (freeBlock_keeps h.toBlocks)) fun _ => touch_keeps (h.raw n)

theorem decrementXattrRefcount_keeps (h : ext2.canLock S .cache) : ext2.Keeps S decrementXattrRefcount :=
  .bind (readFsBlock_keeps h) fun _ => writeFsBlock_keeps h

theorem storeXattrBlock_keeps (h : Free inner S) (n : Handle) : ext2.Keeps S (storeXattrBlock n) := by
  have hcache := h.toBlocks.cache
  refine .branch (writeFsBlock_keeps hcache) (.bind (touch_keeps h.toBlocks.superBlock) fun _ => ?_)
  refine .bind (allocScan_keeps h.toBlocks) fun _ => .bind (writeFsBlock_keeps hcache) fun _ => ?_
  exact .bind (.maybe (decrementXattrRefcount_keeps hcache)) fun _ => touch_keeps (h.raw n)

/-! ## The operations -/

theorem createChild_keeps (h : Free inner S) (n : Handle) : ext2.Keeps S (createChild n) := by
  refine .bind (.attempt (dirLookup_keeps (h.reads n))) fun r => ?_
  cases r with
  | some _ => exact .fail
  | none =>
    refine .bind (allocInode_keeps h.toBlocks) fun ino => .bind (.attempt (initInode_keeps h.toBlocks)) fun r => ?_
    cases r with
    | none => exact .bind (.attempt (freeInode_keeps h ino)) fun _ => .fail
    | some _ =>
      refine .bind (addDirEntry_keeps h n) fun _ => .bind (getInode_keeps h.looks ino) fun child => ?_
      refine .bind (.maybe (.bind (touch_keeps (h.raw child)) fun _ => ?_)) fun _ => .pure _
      exact writeInodeToDisk_keeps h child

theorem unlinkLocked_keeps (h : Free inner S) (n : Handle) : ext2.Keeps S (unlinkLocked n) := by
  refine .bind (dirLookup_keeps (h.reads n)) fun ino => .bind (getInode_keeps h.looks ino) fun child => ?_
  have htouch := touch_keeps (h.raw child)
  refine .bind (mode_keeps (h.raw child)) fun mode => .ite (fun _ => .fail) fun _ => ?_
  refine .bind (removeDirEntry_keeps h n) fun _ => .bind htouch fun _ => .branch ?_ (writeInodeToDisk_keeps h child)
  refine .bind htouch fun _ => .bind (.maybe htouch) fun _ => .bind (.maybe (freeAllBlocks_keeps h child)) fun _ => ?_
  refine .bind (releaseXattrBlock_keeps h child) fun _ => .bind htouch fun _ => ?_
  exact .bind (writeInodeToDisk_keeps h child) fun _ => freeInode_keeps h ino

theorem rmdirLocked_keeps (h : Free inner S) (n : Handle) : ext2.Keeps S (rmdirLocked n) := by
  refine .bind .fallible fun _ => .bind (dirLookup_keeps (h.reads n)) fun ino => ?_
  refine .bind (getInode_keeps h.looks ino) fun child => .bind (mode_keeps (h.raw child)) fun mode => ?_
  refine .ite (fun _ => ?_) fun _ => .fail
  refine .bind (dirIterator_keeps (h.reads child)) fun _ => .bind .fallible fun _ => ?_
  refine .bind (removeDirEntry_keeps h n) fun _ => .bind (touch_keeps (h.raw n)) fun _ => ?_
  refine .bind (writeInodeToDisk_keeps h n) fun _ => .bind (freeAllBlocks_keeps h child) fun _ => ?_
  refine .bind (releaseXattrBlock_keeps h child) fun _ => .bind (touch_keeps (h.raw child)) fun _ => ?_
  refine .bind (writeInodeToDisk_keeps h child) fun _ => .bind (adjustUsedDirs_keeps h.toBlocks) fun _ => ?_
  exact freeInode_keeps h ino

theorem writeSymlinkTarget_keeps (h : Free inner S) (n : Handle) : ext2.Keeps S (writeSymlinkTarget n) :=
  .branch (.bind (touch_keeps (h.raw n)) fun _ => writeInodeToDisk_keeps h n) (writeAtLocked_keeps h n)

theorem transaction_keeps {body : LockM Unit} (hb : ext2.Keeps [.guard .metadataTransaction ()] body) :
    ext2.Keeps [] (transaction body) :=
  .locking (.idle _) fun _ _ => hb

theorem lookup_keeps (n : Handle) : ext2.Keeps [] (lookup n) :=
  .bind (dirLookup_keeps (reads_nil n)) fun ino => .bind (getInode_keeps .idle ino) fun _ => .pure _

theorem create_keeps (n : Handle) : ext2.Keeps [] (create n) :=
  transaction_keeps (.bind .fallible fun _ => .bind (createChild_keeps free_transaction n) fun _ => .pure _)

theorem symlink_keeps (n : Handle) : ext2.Keeps [] (symlink n) :=
  transaction_keeps (.bind (createChild_keeps free_transaction n) fun child =>
    writeSymlinkTarget_keeps free_transaction child)

theorem mkdir_keeps (n : Handle) : ext2.Keeps [] (mkdir n) := by
  have h := free_transaction
  refine transaction_keeps (.bind (.attempt (dirLookup_keeps (h.reads n))) fun r => ?_)
  cases r with
  | some _ => exact .fail
  | none =>
    refine .bind (allocInode_keeps h.toBlocks) fun ino => .bind (.attempt (initInode_keeps h.toBlocks)) fun r => ?_
    have hundo : ext2.Keeps _ (do let _ ← attempt (freeInode ino); failure : LockM Unit) :=
      .bind (.attempt (freeInode_keeps h ino)) fun _ => .fail
    cases r with
    | none => exact hundo
    | some _ =>
      refine .bind (.attempt (addDirEntry_keeps h n)) fun r => ?_
      cases r with
      | none => exact hundo
      | some _ =>
        refine .bind (getInode_keeps h.looks ino) fun child => .bind (addDirEntry_keeps h child) fun _ => ?_
        refine .bind (addDirEntry_keeps h child) fun _ => .bind (touch_keeps (h.raw child)) fun _ => ?_
        refine .bind (writeInodeToDisk_keeps h child) fun _ => .bind (touch_keeps (h.raw n)) fun _ => ?_
        exact .bind (writeInodeToDisk_keeps h n) fun _ => adjustUsedDirs_keeps h.toBlocks

/-- The mode changes under the transaction, where no walk is under way. -/
theorem setattr_keeps (n : Handle) (mode : Nat) : ext2.Keeps [] (setattr n mode) := by
  have h := free_transaction
  refine transaction_keeps (.bind (.withGuard (h.raw n) fun v _ => ⟨rfl, fun _ _ _ => ?_⟩) fun _ => ?_)
  · exact .inr ⟨h.gate, by simp⟩
  · exact writeInodeToDisk_keeps h n

theorem readlink_keeps (n : Handle) : ext2.Keeps [] (readlink n) := by
  refine .bind (touch_keeps (.idle _)) fun _ => .bind .fallible fun _ => ?_
  exact .bind (.branch (touch_keeps (.idle _)) (readAt_keeps (reads_nil n))) fun _ => .fallible

theorem link_keeps (n target : Handle) : ext2.Keeps [] (link n target) := by
  have h := free_transaction
  refine transaction_keeps (.bind (.attempt (dirLookup_keeps (h.reads n))) fun r => ?_)
  cases r with
  | some _ => exact .fail
  | none =>
    refine .bind .fallible fun _ => .bind (mode_keeps (h.raw target)) fun mode => .ite (fun _ => .fail) fun _ => ?_
    refine .bind (addDirEntry_keeps h n) fun _ => .bind (touch_keeps (h.raw target)) fun _ => ?_
    exact writeInodeToDisk_keeps h target

theorem renameEntries_keeps (h : Free inner S) (n newDir child : Handle) (childIsDir : Bool) :
    ext2.Keeps S (renameEntries n newDir child childIsDir) := by
  refine .bind (addDirEntry_keeps h newDir) fun _ => .bind (removeDirEntry_keeps h n) fun _ => ?_
  refine .ite (fun _ => ?_) fun _ => .pure _
  refine .bind (removeDirEntry_keeps h child) fun _ => .bind (addDirEntry_keeps h child) fun _ => ?_
  refine .bind (touch_keeps (h.raw n)) fun _ => .bind (writeInodeToDisk_keeps h n) fun _ => ?_
  refine .bind (touch_keeps (h.raw newDir)) fun _ => .bind (writeInodeToDisk_keeps h newDir) fun _ => ?_
  exact .bind (adjustUsedDirs_keeps h.toBlocks) fun _ => adjustUsedDirs_keeps h.toBlocks

theorem removeExisting_keeps (h : Free inner S) (newDir existing : Handle) (mode : Nat) :
    ext2.Keeps S (removeExisting newDir existing mode) := by
  refine .ite (fun _ => ?_) fun _ => unlinkLocked_keeps h newDir
  refine .bind (dirIterator_keeps (h.reads existing)) fun _ => .bind .fallible fun _ => ?_
  exact rmdirLocked_keeps h newDir

theorem renameOver_keeps (h : Free inner S) (newDir : Handle) (childIno : Nat) {rest : LockM Unit}
    (hrest : ext2.Keeps S rest) : ext2.Keeps S (renameOver newDir childIno rest) := by
  refine .bind (.attempt (dirLookup_keeps (h.reads newDir))) fun r => ?_
  cases r with
  | none => exact hrest
  | some existingIno =>
    refine .ite (fun _ => .pure _) fun _ => .bind (getInode_keeps h.looks existingIno) fun existing => ?_
    refine .bind (mode_keeps (h.raw existing)) fun mode => ?_
    exact .bind (removeExisting_keeps h newDir existing mode) fun _ => hrest

theorem rename_keeps (n newDir : Handle) : ext2.Keeps [] (rename n newDir) := by
  have h := free_transaction
  refine transaction_keeps (.bind .fallible fun _ => .bind (dirLookup_keeps (h.reads n)) fun childIno => ?_)
  refine .bind (getInode_keeps h.looks childIno) fun child => .bind (touch_keeps (h.raw child)) fun _ => ?_
  refine .bind (mode_keeps (h.raw child)) fun mode => .bind (.ite (fun _ => ?_) fun _ => .pure _) fun inside => ?_
  · exact dirIsAncestorOrSelf_keeps childIno newDir.inodeNum
  · exact .ite (fun _ => .fail) fun _ => renameOver_keeps h newDir childIno (renameEntries_keeps h n newDir child _)

theorem truncate_keeps (n : Handle) : ext2.Keeps [] (truncate n) := by
  have h := free_transaction
  refine transaction_keeps (.bind (mode_keeps (h.raw n)) fun mode => ?_)
  exact .ite (fun _ => truncateTo_keeps h n) fun _ => .fail

theorem getxattr_keeps (n : Handle) : ext2.Keeps [] (getxattr n) := by
  refine .bind .fallible fun _ => .bind (touch_keeps (.idle _)) fun _ => .bind .fallible fun _ => ?_
  exact .bind (readFsBlock_keeps (.idle _)) fun _ => .fallible

theorem listxattr_keeps (n : Handle) : ext2.Keeps [] (listxattr n) :=
  .bind (touch_keeps (.idle _)) fun _ => .maybe (.bind (readFsBlock_keeps (.idle _)) fun _ => .fallible)

theorem setxattr_keeps (n : Handle) : ext2.Keeps [] (setxattr n) := by
  have h := free_transaction
  refine transaction_keeps (.bind .fallible fun _ => .bind (touch_keeps (h.raw n)) fun _ => ?_)
  refine .bind (.maybe (.bind (readFsBlock_keeps h.toBlocks.cache) fun _ => .fallible)) fun _ => ?_
  refine .bind .fallible fun _ => .bind (storeXattrBlock_keeps h n) fun _ => writeInodeToDisk_keeps h n

theorem removexattr_keeps (n : Handle) : ext2.Keeps [] (removexattr n) := by
  have h := free_transaction
  have hcache := h.toBlocks.cache
  refine transaction_keeps (.bind .fallible fun _ => .bind (touch_keeps (h.raw n)) fun _ => .bind .fallible fun _ => ?_)
  refine .bind (readFsBlock_keeps hcache) fun _ => .bind .fallible fun _ => .bind (.branch ?_ ?_) fun _ =>
    writeInodeToDisk_keeps h n
  · refine .bind (.branch (decrementXattrRefcount_keeps hcache) (freeBlock_keeps h.toBlocks)) fun _ => ?_
    exact touch_keeps (h.raw n)
  · exact .bind .fallible fun _ => storeXattrBlock_keeps h n

theorem patchSuperBlockCopy_keeps (h : ext2.canLock S .cache) : ext2.Keeps S patchSuperBlockCopy :=
  .bind (readFsBlock_keeps h) fun _ => writeFsBlock_keeps h

theorem writeSuperBlock_keeps (h : Free blocks S) : ext2.Keeps S writeSuperBlock := by
  refine .maybe (.locking h.superBlock fun v _ => ?_)
  have hs : Free {.cache} (.guard .superBlock v :: S) := h.guard _ v (by simp) (by simp [blocks]) (by simp)
  have hpatch := patchSuperBlockCopy_keeps (hs.can (by simp))
  exact .bind hpatch fun _ => .loop hpatch

theorem writeBgdtAt_keeps (h : Free blocks S) : ext2.Keeps S writeBgdtAt := by
  refine .locking h.blockGroups fun v _ => .loop ?_
  have hg : Free {.cache} (.guard .blockGroups v :: S) := h.guard _ v (by simp) (by simp [blocks]) (by simp)
  exact .bind (readFsBlock_keeps (hg.can (by simp))) fun _ => writeFsBlock_keeps (hg.can (by simp))

theorem writeBlockGroupDescriptors_keeps (h : Free blocks S) : ext2.Keeps S writeBlockGroupDescriptors := by
  refine .maybe (.bind (touch_keeps h.superBlock) fun _ => ?_)
  exact .bind (writeBgdtAt_keeps h) fun _ => .loop (writeBgdtAt_keeps h)

theorem syncCache_keeps (h : Free blocks S) : ext2.Keeps S syncCache := .locking h.cache fun _ _ => .fallible

theorem publishState_keeps (h : Free blocks S) : ext2.Keeps S publishState := by
  refine .bind (touch_keeps h.superBlock) fun _ => ?_
  refine .bind (.attempt (.bind (writeSuperBlock_keeps h) fun _ => syncCache_keeps h)) fun r => ?_
  cases r with
  | some _ => exact .pure _
  | none =>
    refine .bind (touch_keeps h.superBlock) fun _ => .bind (.attempt (writeSuperBlock_keeps h)) fun _ => ?_
    exact .fail

theorem sync_keeps : ext2.Keeps [] sync := by
  have h := free_transaction.toBlocks
  refine transaction_keeps (.bind (writeSuperBlock_keeps h) fun _ => ?_)
  exact .bind (writeBlockGroupDescriptors_keeps h) fun _ => syncCache_keeps h

theorem onMount_keeps : ext2.Keeps [] onMount :=
  .maybe (transaction_keeps (publishState_keeps free_transaction.toBlocks))

theorem onUnmount_keeps : ext2.Keeps [] onUnmount := by
  have h := free_transaction.toBlocks
  refine transaction_keeps (.bind (writeSuperBlock_keeps h) fun _ => ?_)
  refine .bind (writeBlockGroupDescriptors_keeps h) fun _ => .bind (syncCache_keeps h) fun _ => ?_
  exact .maybe (publishState_keeps h)

/-- **Every operation keeps to the discipline**, as long as its calls are allowed. -/
theorem op_keeps (o : Op) : ext2.Keeps [] o.prog := by
  have h := free_transaction
  cases o with
  | readAt n => exact readAt_keeps (reads_nil n)
  | writeAt n => exact transaction_keeps (writeAtLocked_keeps h n)
  | lookup n => exact lookup_keeps n
  | create n => exact create_keeps n
  | unlink n => exact transaction_keeps (unlinkLocked_keeps h n)
  | mkdir n => exact mkdir_keeps n
  | rmdir n => exact transaction_keeps (rmdirLocked_keeps h n)
  | getattr n => exact .bind (size_keeps (reads_nil n)) fun _ => touch_keeps (.idle _)
  | setattr n mode => exact setattr_keeps n mode
  | list n => exact dirIterator_keeps (reads_nil n)
  | readlink n => exact readlink_keeps n
  | symlink n => exact symlink_keeps n
  | link n target => exact link_keeps n target
  | rename n newDir => exact rename_keeps n newDir
  | truncate n => exact truncate_keeps n
  | mknod n => exact create_keeps n
  | getxattr n => exact getxattr_keeps n
  | listxattr n => exact listxattr_keeps n
  | setxattr n => exact setxattr_keeps n
  | removexattr n => exact removexattr_keeps n
  | rootInode => exact .bind (getInode_keeps .idle _) fun _ => .pure _
  | sync => exact sync_keeps
  | onMount => exact onMount_keeps
  | onUnmount => exact onUnmount_keeps
  | info => exact touch_keeps (.idle _)
  | hasFiletype => exact .bind (.locking (.idle _) fun _ _ => .any) fun _ => .pure _

theorem body_ok (o : Op) : ext2.Ok o.body [] fun S _ => S = [] :=
  Ok.bind (op_keeps o)

end Koros.Ext2.Locking
