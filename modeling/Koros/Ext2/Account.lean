import Koros.Ext2.Scan
import Mathlib.Algebra.Order.BigOperators.Group.List

/-!
# Allocation accounting

Blocks and inodes are allocated alike. An item of either `Kind` has a number, the number has a bit in the bitmap of its
group, the group counts its clear bits, and the superblock counts those of all groups. `Consistent` ties the three together.

- `mark_consistent`: one bit and its two counters change together;
- `allocBlockGoal_spec`, `allocInode_spec`, `freeBlock_spec`, `freeInode_spec`: what the four operations do;
- `allocation_accounting`: every run of them.
-/
set_option autoImplicit false

namespace Koros.Ext2

open Koros.Lib

/-! ## The two kinds of items -/

inductive Kind where
  | block
  | inode
deriving DecidableEq, Repr

namespace BlockGroupDescriptor

def bitmap (bg : BlockGroupDescriptor) : Kind → Nat
  | .block => bg.blockBitmap
  | .inode => bg.inodeBitmap

def free (bg : BlockGroupDescriptor) : Kind → Nat
  | .block => bg.freeBlocksCount
  | .inode => bg.freeInodesCount

def setFree (bg : BlockGroupDescriptor) (k : Kind) (n : Nat) : BlockGroupDescriptor :=
  match k with
  | .block => { bg with freeBlocksCount := n }
  | .inode => { bg with freeInodesCount := n }

@[simp] theorem free_setFree (bg : BlockGroupDescriptor) (k k' : Kind) (n : Nat) :
    (bg.setFree k n).free k' = if k' = k then n else bg.free k' := by
  cases k <;> cases k' <;> rfl

@[simp] theorem bitmap_setFree (bg : BlockGroupDescriptor) (k k' : Kind) (n : Nat) :
    (bg.setFree k n).bitmap k' = bg.bitmap k' := by
  cases k <;> cases k' <;> rfl

@[simp] theorem inodeTable_setFree (bg : BlockGroupDescriptor) (k : Kind) (n : Nat) :
    (bg.setFree k n).inodeTable = bg.inodeTable := by
  cases k <;> rfl

end BlockGroupDescriptor

namespace SuperBlock

variable (sb : SuperBlock)

def free : Kind → Nat
  | .block => sb.freeBlocksCount
  | .inode => sb.freeInodesCount

def setFree (k : Kind) (n : Nat) : SuperBlock :=
  match k with
  | .block => { sb with freeBlocksCount := n }
  | .inode => { sb with freeInodesCount := n }

def perGroup : Kind → Nat
  | .block => sb.blocksPerGroup
  | .inode => sb.inodesPerGroup

/-- The smallest number of a kind. -/
def first : Kind → Nat
  | .block => sb.firstDataBlock
  | .inode => 1

/-- How many items there are of a kind. -/
def size : Kind → Nat
  | .block => sb.blocksCount - sb.firstDataBlock
  | .inode => sb.inodesCount

/-- The part of a group's bitmap that stands for items. -/
def valid (k : Kind) (g : Nat) : Nat := min (sb.perGroup k) (sb.size k - g * sb.perGroup k)

def groupOf (k : Kind) (n : Nat) : Nat := (n - sb.first k) / sb.perGroup k

def bitOf (k : Kind) (n : Nat) : Nat := (n - sb.first k) % sb.perGroup k

def number (k : Kind) (g i : Nat) : Nat := g * sb.perGroup k + i + sb.first k

/-- A block below `blocks_count`, an inode from 1 to `inodes_count`. -/
def InRange : Kind → Nat → Prop
  | .block, n => sb.firstDataBlock ≤ n ∧ n < sb.blocksCount
  | .inode, n => 1 ≤ n ∧ n ≤ sb.inodesCount

variable {sb} {k : Kind} {g i n : Nat}

@[simp] theorem free_setFree (k k' : Kind) (n : Nat) :
    (sb.setFree k n).free k' = if k' = k then n else sb.free k' := by
  cases k <;> cases k' <;> rfl

/-- The counters are no part of the geometry. -/
theorem setFree_geometry (k : Kind) (n : Nat) :
    (sb.setFree k n).blockGroupCount = sb.blockGroupCount ∧ (sb.setFree k n).blockSize = sb.blockSize ∧
    (sb.setFree k n).perGroup = sb.perGroup ∧ (sb.setFree k n).size = sb.size ∧ (sb.setFree k n).first = sb.first := by
  cases k <;> refine ⟨rfl, rfl, ?_, ?_, ?_⟩ <;> funext k' <;> cases k' <;> rfl

theorem inRange_iff : sb.InRange k n ↔ sb.first k ≤ n ∧ n < sb.first k + sb.size k := by
  cases k <;> simp only [InRange, first, size] <;> omega

theorem valid_le : sb.valid k g ≤ sb.perGroup k := Nat.min_le_left ..

theorem groupOf_number (h : i < sb.perGroup k) : sb.groupOf k (sb.number k g i) = g := by
  rw [groupOf, number, Nat.add_sub_cancel, Nat.add_comm, Nat.add_mul_div_right _ _ (by omega), Nat.div_eq_of_lt h,
    Nat.zero_add]

theorem bitOf_number (h : i < sb.perGroup k) : sb.bitOf k (sb.number k g i) = i := by
  rw [bitOf, number, Nat.add_sub_cancel, Nat.add_comm, Nat.add_mul_mod_self_right, Nat.mod_eq_of_lt h]

theorem number_groupOf_bitOf (h : sb.first k ≤ n) : sb.number k (sb.groupOf k n) (sb.bitOf k n) = n := by
  rw [number, groupOf, bitOf, Nat.mul_comm, Nat.div_add_mod]
  omega

theorem inRange_number (h : i < sb.valid k g) : sb.InRange k (sb.number k g i) := by
  rw [inRange_iff, number]
  rw [valid] at h
  omega

theorem bitOf_lt_valid (hper : 0 < sb.perGroup k) (h : sb.InRange k n) :
    sb.bitOf k n < sb.valid k (sb.groupOf k n) := by
  obtain ⟨h₁, h₂⟩ := inRange_iff.1 h
  have hlt : sb.bitOf k n < sb.perGroup k := Nat.mod_lt _ hper
  have hn := number_groupOf_bitOf h₁
  rw [number] at hn
  rw [valid]
  omega

/-- The valid parts of the first `m` groups together. -/
theorem sum_valid (sb : SuperBlock) (k : Kind) (m : Nat) :
    ((List.range m).map (sb.valid k)).sum = min (m * sb.perGroup k) (sb.size k) := by
  induction m with
  | zero => simp
  | succ m ih =>
    rw [List.range_succ, List.map_append, List.sum_append, ih, List.map_singleton, List.sum_singleton, valid, Nat.succ_mul]
    omega

end SuperBlock

/-! ## Consistent filesystems -/

namespace Ext2Fs

/-- Bit `i` of the bitmap of group `g`. -/
def bit (fs : Ext2Fs) (k : Kind) (g i : Nat) : Bool :=
  match fs.blockGroups[g]? with
  | some bg => testBitAt (fs.disk (bg.bitmap k)) i
  | none => false

def Allocated (fs : Ext2Fs) (k : Kind) (n : Nat) : Prop :=
  fs.superBlock.InRange k n ∧ fs.bit k (fs.superBlock.groupOf k n) (fs.superBlock.bitOf k n) = true

/-- How many items of a kind are free, by the bitmaps. -/
def clearBits (fs : Ext2Fs) (k : Kind) : Nat :=
  ((List.range fs.blockGroups.length).map fun g => clearCount (fs.superBlock.valid k g) (fs.bit k g)).sum

/-- The on-disk format's bounds, and bitmaps that lie on the device, each in a block of its own. -/
structure Geometry (fs : Ext2Fs) : Prop where
  groups : fs.blockGroups.length = fs.superBlock.blockGroupCount
  perGroup : ∀ k, 0 < fs.superBlock.perGroup k ∧ fs.superBlock.perGroup k ≤ 8 * fs.blockSize ∧
    fs.superBlock.perGroup k < 2 ^ 16
  first : fs.superBlock.firstDataBlock ≤ 1
  blocks : fs.superBlock.blocksCount < 2 ^ 32
  inodes : fs.superBlock.inodesCount < 2 ^ 32
  inodesLow : (fs.superBlock.blockGroupCount - 1) * fs.superBlock.inodesPerGroup ≤ fs.superBlock.inodesCount
  inodesHigh : fs.superBlock.inodesCount ≤ fs.superBlock.blockGroupCount * fs.superBlock.inodesPerGroup
  placed : ∀ {k g bg}, fs.blockGroups[g]? = some bg → 0 < fs.superBlock.valid k g → bg.bitmap k < fs.deviceBlocks
  distinct : ∀ {k g bg k' g' bg'}, fs.blockGroups[g]? = some bg → fs.blockGroups[g']? = some bg' →
    0 < fs.superBlock.valid k g → 0 < fs.superBlock.valid k' g' → bg.bitmap k = bg'.bitmap k' → k = k' ∧ g = g'

/-- Every group counts the clear bits of its bitmap's valid part, and the superblock those of all groups. -/
structure Consistent (fs : Ext2Fs) : Prop extends Geometry fs where
  group : ∀ {k g bg}, fs.blockGroups[g]? = some bg → bg.free k = clearCount (fs.superBlock.valid k g) (fs.bit k g)
  total : ∀ k, fs.superBlock.free k = (fs.blockGroups.map (·.free k)).sum

/-- The free count after one item was taken (`v`) or given back. -/
def recount (v : Bool) (c : Nat) : Nat := if v then c - 1 else c + 1

/-- Mark item `n` as used (`v`) or free, and count it. -/
def mark (fs : Ext2Fs) (k : Kind) (n : Nat) (v : Bool) : Ext2Fs :=
  match fs.blockGroups[fs.superBlock.groupOf k n]? with
  | none => fs
  | some bg =>
    { fs with
      disk := Function.update fs.disk (bg.bitmap k) (writeBitAt v (fs.disk (bg.bitmap k)) (fs.superBlock.bitOf k n))
      blockGroups := fs.blockGroups.set (fs.superBlock.groupOf k n) (bg.setFree k (recount v (bg.free k)))
      superBlock := fs.superBlock.setFree k (recount v (fs.superBlock.free k)) }

end Ext2Fs

section Facts

variable {fs : Ext2Fs} {k : Kind} {g i n : Nat} {bg : BlockGroupDescriptor}

theorem bit_eq (h : fs.blockGroups[g]? = some bg) (i : Nat) : fs.bit k g i = testBitAt (fs.disk (bg.bitmap k)) i := by
  rw [Ext2Fs.bit, h]

namespace Ext2Fs.Geometry

theorem size_le (hG : fs.Geometry) (k : Kind) :
    fs.superBlock.size k ≤ fs.blockGroups.length * fs.superBlock.perGroup k := by
  rw [hG.groups]
  cases k with
  | block =>
    have hper : 0 < fs.superBlock.blocksPerGroup := (hG.perGroup .block).1
    have hdiv := Nat.lt_div_mul_add (a := fs.superBlock.blocksCount + fs.superBlock.blocksPerGroup - 1) hper
    show fs.superBlock.blocksCount - fs.superBlock.firstDataBlock ≤
      (fs.superBlock.blocksCount + fs.superBlock.blocksPerGroup - 1) / fs.superBlock.blocksPerGroup *
        fs.superBlock.blocksPerGroup
    omega
  | inode => exact hG.inodesHigh

theorem exists_group (hG : fs.Geometry) (h : fs.superBlock.InRange k n) :
    ∃ bg, fs.blockGroups[fs.superBlock.groupOf k n]? = some bg := by
  have hlt : fs.superBlock.groupOf k n < fs.blockGroups.length := by
    rw [SuperBlock.groupOf, Nat.div_lt_iff_lt_mul (hG.perGroup k).1]
    have := hG.size_le k
    have := SuperBlock.inRange_iff.1 h
    omega
  exact ⟨_, List.getElem?_eq_getElem hlt⟩

/-- The first number of a group does not exceed the last of all. -/
theorem groupFirst_le (hG : fs.Geometry) (hg : g < fs.blockGroups.length) :
    fs.superBlock.firstDataBlock + g * fs.superBlock.blocksPerGroup ≤ fs.superBlock.blocksCount := by
  have hper : 0 < fs.superBlock.blocksPerGroup := (hG.perGroup .block).1
  have hfirst := hG.first
  rw [hG.groups, SuperBlock.blockGroupCount, ← Nat.succ_le_iff, Nat.le_div_iff_mul_le hper, Nat.succ_mul] at hg
  omega

theorem valid_block (_ : fs.Geometry) (g : Nat) :
    fs.superBlock.valid .block g = min fs.superBlock.blocksPerGroup
      (fs.superBlock.blocksCount - (fs.superBlock.firstDataBlock + g * fs.superBlock.blocksPerGroup)) := by
  rw [Nat.sub_add_eq]
  rfl

/-- Only the last group may be short of inodes. -/
theorem valid_inode (hG : fs.Geometry) (hg : g < fs.blockGroups.length) :
    fs.superBlock.valid .inode g =
      if g = fs.superBlock.blockGroupCount - 1 then
        fs.superBlock.inodesCount - (fs.superBlock.blockGroupCount - 1) * fs.superBlock.inodesPerGroup
      else fs.superBlock.inodesPerGroup := by
  rw [hG.groups] at hg
  have hlow := hG.inodesLow
  have hhigh := hG.inodesHigh
  show min fs.superBlock.inodesPerGroup (fs.superBlock.inodesCount - g * fs.superBlock.inodesPerGroup) = _
  by_cases hlast : g = fs.superBlock.blockGroupCount - 1
  · rw [if_pos hlast, hlast]
    have : fs.superBlock.blockGroupCount * fs.superBlock.inodesPerGroup =
        (fs.superBlock.blockGroupCount - 1) * fs.superBlock.inodesPerGroup + fs.superBlock.inodesPerGroup := by
      rw [← Nat.succ_mul, Nat.succ_eq_add_one, Nat.sub_add_cancel (by omega)]
    omega
  · rw [if_neg hlast]
    have : (g + 1) * fs.superBlock.inodesPerGroup ≤ (fs.superBlock.blockGroupCount - 1) * fs.superBlock.inodesPerGroup :=
      Nat.mul_le_mul_right _ (by omega)
    rw [Nat.succ_mul] at this
    omega

end Ext2Fs.Geometry

namespace Ext2Fs.Consistent

/-- The group counters and the bitmaps agree in total. -/
theorem sum_free (hc : fs.Consistent) (k : Kind) : (fs.blockGroups.map (·.free k)).sum = fs.clearBits k := by
  unfold Ext2Fs.clearBits
  congr 1
  apply List.ext_getElem?
  intro g
  rw [List.getElem?_map, List.getElem?_map]
  cases hg : fs.blockGroups[g]? with
  | none =>
    have : fs.blockGroups.length ≤ g := List.getElem?_eq_none_iff.1 hg
    rw [List.getElem?_eq_none (by simpa using this)]
    rfl
  | some bg =>
    have hlt : g < fs.blockGroups.length := (List.getElem?_eq_some_iff.1 hg).1
    rw [List.getElem?_range hlt]
    exact congrArg some (hc.group hg)

/-- A free item is counted. -/
theorem free_pos (hc : fs.Consistent) (hg : fs.blockGroups[g]? = some bg) (hi : i < fs.superBlock.valid k g)
    (hbit : fs.bit k g i = false) : 0 < bg.free k := by
  rw [hc.group hg]
  exact clearCount_pos hi hbit

theorem free_le_total (hc : fs.Consistent) (hg : fs.blockGroups[g]? = some bg) : bg.free k ≤ fs.superBlock.free k := by
  rw [hc.total]
  exact List.single_le_sum (fun _ _ => Nat.zero_le _) _ (List.mem_map_of_mem (List.mem_of_getElem? hg))

/-- A used item leaves room in the counters. -/
theorem free_lt (hc : fs.Consistent) (hg : fs.blockGroups[g]? = some bg) (hi : i < fs.superBlock.valid k g)
    (hbit : fs.bit k g i = true) : bg.free k < fs.superBlock.perGroup k := by
  rw [hc.group hg]
  exact Nat.lt_of_lt_of_le (clearCount_lt hi hbit) SuperBlock.valid_le

theorem total_lt (hc : fs.Consistent) (hg : fs.blockGroups[g]? = some bg) (hi : i < fs.superBlock.valid k g)
    (hbit : fs.bit k g i = true) : fs.superBlock.free k < fs.superBlock.size k := by
  have hlt : g < fs.blockGroups.length := (List.getElem?_eq_some_iff.1 hg).1
  rw [hc.total, hc.sum_free]
  calc fs.clearBits k
      < ((List.range fs.blockGroups.length).map (fs.superBlock.valid k)).sum :=
        List.sum_lt_sum _ _ (fun _ _ => clearCount_le _ _) ⟨g, List.mem_range.2 hlt, clearCount_lt hi hbit⟩
    _ ≤ fs.superBlock.size k := by rw [SuperBlock.sum_valid]; exact Nat.min_le_right ..

end Ext2Fs.Consistent

end Facts

/-! ## Marking one item -/

section Mark

variable {fs : Ext2Fs} {k k' : Kind} {g i n n' : Nat} {bg : BlockGroupDescriptor} {v : Bool}

theorem sum_map_set {α : Type} (f : α → Nat) {l : List α} {x y : α} (h : l[g]? = some x) :
    ((l.set g y).map f).sum + f x = (l.map f).sum + f y := by
  induction l generalizing g with
  | nil => simp at h
  | cons a l ih =>
    cases g with
    | zero =>
      obtain rfl : a = x := by simpa using h
      simp only [List.set_cons_zero, List.map_cons, List.sum_cons]
      omega
    | succ g =>
      have := ih (g := g) (by simpa using h)
      simp only [List.set_cons_succ, List.map_cons, List.sum_cons]
      omega

/-- What marking leaves alone. -/
theorem mark_frame (fs : Ext2Fs) (k : Kind) (n : Nat) (v : Bool) :
    (fs.mark k n v).deviceBlocks = fs.deviceBlocks ∧ (fs.mark k n v).readOnly = fs.readOnly ∧
    (fs.mark k n v).inodeCache = fs.inodeCache := by
  unfold Ext2Fs.mark
  split <;> exact ⟨rfl, rfl, rfl⟩

theorem superBlock_mark (fs : Ext2Fs) (k : Kind) (n : Nat) (v : Bool) :
    ∃ c, (fs.mark k n v).superBlock = fs.superBlock.setFree k c := by
  unfold Ext2Fs.mark
  split
  · exact ⟨fs.superBlock.free k, by cases k <;> rfl⟩
  · exact ⟨_, rfl⟩

theorem valid_mark (fs : Ext2Fs) (k : Kind) (n : Nat) (v : Bool) :
    (fs.mark k n v).superBlock.valid = fs.superBlock.valid := by
  obtain ⟨c, hc⟩ := superBlock_mark fs k n v
  obtain ⟨-, -, h₁, h₂, -⟩ := SuperBlock.setFree_geometry k c
  funext k' g
  rw [hc, SuperBlock.valid, SuperBlock.valid, h₁, h₂]

theorem length_mark (fs : Ext2Fs) (k : Kind) (n : Nat) (v : Bool) :
    (fs.mark k n v).blockGroups.length = fs.blockGroups.length := by
  unfold Ext2Fs.mark
  split
  · rfl
  · exact List.length_set ..

/-- The group of the item counts; the other groups stay. -/
theorem group_mark (h : (fs.mark k n v).blockGroups[g]? = some bg) : ∃ bg₀, fs.blockGroups[g]? = some bg₀ ∧
    bg = if g = fs.superBlock.groupOf k n then bg₀.setFree k (Ext2Fs.recount v (bg₀.free k)) else bg₀ := by
  unfold Ext2Fs.mark at h
  split at h
  · rename_i hnone
    refine ⟨bg, h, (if_neg fun heq => ?_).symm⟩
    rw [← heq, h] at hnone
    cases hnone
  · rename_i bg₀ hg₀
    rw [List.getElem?_set] at h
    split at h
    · rename_i heq
      subst heq
      obtain rfl := Option.some.inj ((if_pos (List.getElem?_eq_some_iff.1 hg₀).1).symm.trans h)
      exact ⟨bg₀, hg₀, (if_pos rfl).symm⟩
    · rename_i hne
      exact ⟨bg, h, (if_neg (Ne.symm hne)).symm⟩

/-- A group keeps its bitmaps and its inode table. -/
theorem group_mark_static (h : (fs.mark k n v).blockGroups[g]? = some bg) : ∃ bg₀, fs.blockGroups[g]? = some bg₀ ∧
    bg.inodeTable = bg₀.inodeTable ∧ ∀ k', bg.bitmap k' = bg₀.bitmap k' := by
  obtain ⟨bg₀, hg₀, rfl⟩ := group_mark h
  refine ⟨bg₀, hg₀, ?_⟩
  split
  · exact ⟨by simp, by simp⟩
  · exact ⟨rfl, fun _ => rfl⟩

theorem mark_geometry (hG : fs.Geometry) (k : Kind) (n : Nat) (v : Bool) : (fs.mark k n v).Geometry := by
  obtain ⟨hdev, -, -⟩ := mark_frame fs k n v
  obtain ⟨c, hsb⟩ := superBlock_mark fs k n v
  obtain ⟨hcount, hbs, hper, -, -⟩ := SuperBlock.setFree_geometry k c
  have hsame : (fs.superBlock.setFree k c).firstDataBlock = fs.superBlock.firstDataBlock ∧
      (fs.superBlock.setFree k c).blocksCount = fs.superBlock.blocksCount ∧
      (fs.superBlock.setFree k c).inodesCount = fs.superBlock.inodesCount ∧
      (fs.superBlock.setFree k c).inodesPerGroup = fs.superBlock.inodesPerGroup := by
    cases k <;> exact ⟨rfl, rfl, rfl, rfl⟩
  obtain ⟨h₁, h₂, h₃, h₄⟩ := hsame
  constructor
  · rw [length_mark, hsb, hcount]
    exact hG.groups
  · intro k'
    rw [Ext2Fs.blockSize, hsb, hper, hbs]
    exact hG.perGroup k'
  · rw [hsb, h₁]
    exact hG.first
  · rw [hsb, h₂]
    exact hG.blocks
  · rw [hsb, h₃]
    exact hG.inodes
  · rw [hsb, hcount, h₃, h₄]
    exact hG.inodesLow
  · rw [hsb, hcount, h₃, h₄]
    exact hG.inodesHigh
  · intro k' g bg hg hv
    obtain ⟨bg₀, hg₀, -, hbm⟩ := group_mark_static hg
    rw [valid_mark] at hv
    rw [hbm, hdev]
    exact hG.placed hg₀ hv
  · intro k₁ g₁ bg₁ k₂ g₂ bg₂ hg₁ hg₂ hv₁ hv₂ heq
    obtain ⟨bg₁', hg₁', -, hbm₁⟩ := group_mark_static hg₁
    obtain ⟨bg₂', hg₂', -, hbm₂⟩ := group_mark_static hg₂
    rw [valid_mark] at hv₁ hv₂
    rw [hbm₁, hbm₂] at heq
    exact hG.distinct hg₁' hg₂' hv₁ hv₂ heq

/-- Marking changes one bit of the valid parts of all bitmaps. -/
theorem bit_mark (hG : fs.Geometry) (hn : fs.superBlock.InRange k n) (hg : 0 < fs.superBlock.valid k' g) (i : Nat) :
    (fs.mark k n v).bit k' g i =
      if k' = k ∧ g = fs.superBlock.groupOf k n ∧ i = fs.superBlock.bitOf k n then v else fs.bit k' g i := by
  obtain ⟨bg, hbg⟩ := hG.exists_group hn
  have hvalid : 0 < fs.superBlock.valid k (fs.superBlock.groupOf k n) :=
    Nat.lt_of_le_of_lt (Nat.zero_le _) (SuperBlock.bitOf_lt_valid (hG.perGroup k).1 hn)
  have hlt := (List.getElem?_eq_some_iff.1 hbg).1
  unfold Ext2Fs.mark
  simp only [hbg, Ext2Fs.bit, List.getElem?_set]
  by_cases hgg : fs.superBlock.groupOf k n = g
  · subst hgg
    simp only [if_true, hlt, BlockGroupDescriptor.bitmap_setFree, hbg]
    by_cases hk : k' = k
    · subst hk
      rw [Function.update_self, testBitAt_writeBitAt (by decide)]
      simp
    · have hne : bg.bitmap k' ≠ bg.bitmap k := fun h => hk (hG.distinct hbg hbg hg hvalid h).1
      rw [Function.update_of_ne hne, if_neg fun h => hk h.1]
  · rw [if_neg hgg, if_neg fun h => hgg h.2.1.symm]
    cases hg' : fs.blockGroups[g]? with
    | none => rfl
    | some bg' =>
      have hne : bg'.bitmap k' ≠ bg.bitmap k := fun h => hgg (hG.distinct hg' hbg hg hvalid h).2.symm
      simp only [Function.update_of_ne hne]

/-- One bit more or less in the count. -/
theorem clearCount_recount {m i : Nat} {p q : Nat → Bool} (hi : i < m) (hp : p i = !v)
    (hq : ∀ j, q j = if j = i then v else p j) : clearCount m q = Ext2Fs.recount v (clearCount m p) := by
  have hsame : ∀ j, ¬(i ≤ j ∧ j < i + 1) → q j = p j := fun j hj => by rw [hq, if_neg (by omega)]
  have hqi : ∀ j, i ≤ j → j < i + 1 → q j = v := fun j h₁ h₂ => by rw [hq, if_pos (by omega)]
  have hpi : ∀ j, i ≤ j → j < i + 1 → p j = !v := fun j h₁ h₂ => by
    obtain rfl : j = i := by omega
    exact hp
  cases v with
  | true =>
    have := clearCount_set_run (n := m) (by omega) hpi hqi hsame
    simp only [Ext2Fs.recount, if_true]
    omega
  | false =>
    have := clearCount_set_run (n := m) (by omega) hqi hpi fun j hj => (hsame j hj).symm
    simp only [Ext2Fs.recount, Bool.false_eq_true, if_false]
    omega

/-- **Marking keeps bits and counters together.** -/
theorem mark_consistent (hc : fs.Consistent) (hn : fs.superBlock.InRange k n)
    (hbit : fs.bit k (fs.superBlock.groupOf k n) (fs.superBlock.bitOf k n) = !v) : (fs.mark k n v).Consistent := by
  have hG := hc.toGeometry
  have hi := SuperBlock.bitOf_lt_valid (hG.perGroup k).1 hn
  obtain ⟨bg₁, hbg₁⟩ := hG.exists_group hn
  refine { toGeometry := mark_geometry hG k n v, group := ?_, total := ?_ }
  · intro k' g bg hg
    obtain ⟨bg₀, hg₀, rfl⟩ := group_mark hg
    rw [valid_mark]
    by_cases hthis : k' = k ∧ g = fs.superBlock.groupOf k n
    · obtain ⟨rfl, rfl⟩ := hthis
      rw [if_pos rfl, BlockGroupDescriptor.free_setFree, if_pos rfl, hc.group hg₀]
      refine (clearCount_recount hi hbit fun j => ?_).symm
      rw [bit_mark hG hn (by omega)]
      simp
    · have hfree : (if g = fs.superBlock.groupOf k n then bg₀.setFree k (Ext2Fs.recount v (bg₀.free k)) else bg₀).free k' =
          bg₀.free k' := by
        split
        · rename_i hg'
          rw [BlockGroupDescriptor.free_setFree, if_neg fun hk => hthis ⟨hk, hg'⟩]
        · rfl
      rw [hfree, hc.group hg₀]
      rcases Nat.eq_zero_or_pos (fs.superBlock.valid k' g) with h0 | hpos
      · rw [h0]
        rfl
      · refine clearCount_congr fun j _ => ?_
        rw [bit_mark hG hn hpos, if_neg fun h => hthis ⟨h.1, h.2.1⟩]
  · intro k'
    have hsum := sum_map_set (·.free k') (y := bg₁.setFree k (Ext2Fs.recount v (bg₁.free k))) hbg₁
    have htotal := hc.total k'
    have hle := hc.free_le_total (k := k) hbg₁
    have hpos : v = true → 0 < bg₁.free k := fun hv => hc.free_pos hbg₁ hi (by rw [hbit, hv]; rfl)
    unfold Ext2Fs.mark
    simp only [hbg₁, SuperBlock.free_setFree]
    simp only [BlockGroupDescriptor.free_setFree] at hsum
    by_cases hk : k' = k
    · subst hk
      simp only [if_true] at hsum ⊢
      cases v with
      | true =>
        have := hpos rfl
        simp only [Ext2Fs.recount, if_true] at hsum ⊢
        omega
      | false =>
        simp only [Ext2Fs.recount, Bool.false_eq_true, if_false] at hsum ⊢
        omega
    · simp only [if_neg hk] at hsum ⊢
      omega

theorem inRange_mark (k' : Kind) (n' : Nat) :
    (fs.mark k n v).superBlock.InRange k' n' ↔ fs.superBlock.InRange k' n' := by
  obtain ⟨c, hc⟩ := superBlock_mark fs k n v
  obtain ⟨-, -, -, h₁, h₂⟩ := SuperBlock.setFree_geometry k c
  rw [hc, SuperBlock.inRange_iff, h₁, h₂, SuperBlock.inRange_iff]

/-- Marking changes what is allocated at one number. -/
theorem allocated_mark (hG : fs.Geometry) (hn : fs.superBlock.InRange k n) :
    (fs.mark k n v).Allocated k' n' ↔ if k' = k ∧ n' = n then v = true else fs.Allocated k' n' := by
  unfold Ext2Fs.Allocated
  rw [inRange_mark]
  obtain ⟨c, hc⟩ := superBlock_mark fs k n v
  obtain ⟨-, -, hper, -, hfirst⟩ := SuperBlock.setFree_geometry k c
  have hgroup : (fs.mark k n v).superBlock.groupOf k' n' = fs.superBlock.groupOf k' n' := by
    rw [hc, SuperBlock.groupOf, hper, hfirst, SuperBlock.groupOf]
  have hbitOf : (fs.mark k n v).superBlock.bitOf k' n' = fs.superBlock.bitOf k' n' := by
    rw [hc, SuperBlock.bitOf, hper, hfirst, SuperBlock.bitOf]
  rw [hgroup, hbitOf]
  by_cases hn' : fs.superBlock.InRange k' n'
  · have hvalid := SuperBlock.bitOf_lt_valid (hG.perGroup k').1 hn'
    rw [bit_mark hG hn (by omega)]
    by_cases hthis : k' = k ∧ n' = n
    · obtain ⟨rfl, rfl⟩ := hthis
      simp [hn]
    · have hne : ¬(k' = k ∧ fs.superBlock.groupOf k' n' = fs.superBlock.groupOf k n ∧
          fs.superBlock.bitOf k' n' = fs.superBlock.bitOf k n) := by
        rintro ⟨rfl, h₁, h₂⟩
        refine hthis ⟨rfl, ?_⟩
        rw [← SuperBlock.number_groupOf_bitOf (SuperBlock.inRange_iff.1 hn').1, h₁, h₂,
          SuperBlock.number_groupOf_bitOf (SuperBlock.inRange_iff.1 hn).1]
      rw [if_neg hne, if_neg hthis]
  · have hne : ¬(k' = k ∧ n' = n) := by
      rintro ⟨rfl, rfl⟩
      exact hn' hn
    rw [if_neg hne]
    exact ⟨fun h => absurd h.1 hn', fun h => absurd h.1 hn'⟩

end Mark

/-! ## The operations -/

section Operations

variable {fs : Ext2Fs} {k : Kind} {g i n : Nat} {bg : BlockGroupDescriptor}

/-- One group searched: it is full, or its first clear bit was taken. -/
def Searched (k : Kind) (search : Nat → FsM (Option Nat)) (fs : Ext2Fs) (g : Nat) : Prop :=
  (search g fs = .ok none fs ∧ ∀ i < fs.superBlock.valid k g, fs.bit k g i = true) ∨
  ∃ i < fs.superBlock.valid k g, fs.bit k g i = false ∧
    search g fs = .ok (some (fs.superBlock.number k g i)) (fs.mark k (fs.superBlock.number k g i) true)

theorem full_of_free_eq_zero (hc : fs.Consistent) (hg : fs.blockGroups[g]? = some bg) (h : bg.free k = 0) :
    ∀ i < fs.superBlock.valid k g, fs.bit k g i = true := by
  intro i hi
  cases hbit : fs.bit k g i with
  | true => rfl
  | false =>
    have := hc.free_pos hg hi hbit
    omega

theorem valid_pos_of_free (hc : fs.Consistent) (hg : fs.blockGroups[g]? = some bg) (h : bg.free k ≠ 0) :
    0 < fs.superBlock.valid k g := by
  rw [hc.group hg] at h
  obtain ⟨i, hi, -⟩ := exists_clear_of_clearCount_pos (Nat.pos_of_ne_zero h)
  omega

theorem mark_number (hg : fs.blockGroups[g]? = some bg) (hi : i < fs.superBlock.perGroup k) (v : Bool) :
    fs.mark k (fs.superBlock.number k g i) v =
      { fs with
        disk := Function.update fs.disk (bg.bitmap k) (writeBitAt v (fs.disk (bg.bitmap k)) i)
        blockGroups := fs.blockGroups.set g (bg.setFree k (Ext2Fs.recount v (bg.free k)))
        superBlock := fs.superBlock.setFree k (Ext2Fs.recount v (fs.superBlock.free k)) } := by
  unfold Ext2Fs.mark
  rw [SuperBlock.groupOf_number hi, SuperBlock.bitOf_number hi, hg]

/-- A search of the bitmap of group `g`: full, or a clear bit that both allocators may set. -/
theorem findFirstClear_cases (hc : fs.Consistent) (hg : fs.blockGroups[g]? = some bg) {m : Bitmap}
    (hm : m = ⟨fs.disk (bg.bitmap k), fs.blockSize, fs.superBlock.valid k g⟩) :
    (m.findFirstClear = none ∧ ∀ i < fs.superBlock.valid k g, fs.bit k g i = true) ∨
    ∃ i < fs.superBlock.valid k g, m.findFirstClear = some i ∧ fs.bit k g i = false ∧ m.inRange i = true := by
  subst hm
  have hbits : 8 * fs.blockSize ≥ fs.superBlock.valid k g :=
    Nat.le_trans SuperBlock.valid_le (hc.perGroup k).2.1
  cases hf : Bitmap.findFirstClear ⟨fs.disk (bg.bitmap k), fs.blockSize, fs.superBlock.valid k g⟩ with
  | none =>
    refine .inl ⟨rfl, fun i hi => ?_⟩
    rw [bit_eq hg]
    exact findFirstClear_eq_none hf hi (Nat.div_lt_of_lt_mul (by show i < 8 * fs.blockSize; omega))
  | some i =>
    obtain ⟨h₁, h₂, h₃⟩ := findFirstClear_eq_some hf
    refine .inr ⟨i, h₁, rfl, ?_, ?_⟩
    · rw [bit_eq hg]
      exact h₃
    · simp only [Bitmap.inRange, decide_eq_true_eq]
      exact ⟨h₁, h₂⟩

theorem allocBlockIn_spec (hc : fs.Consistent) (hro : fs.readOnly = false) (hg : g < fs.blockGroups.length) :
    Searched .block allocBlockIn fs g := by
  have hG := hc.toGeometry
  obtain ⟨bg, hbg⟩ : ∃ bg, fs.blockGroups[g]? = some bg := ⟨_, List.getElem?_eq_getElem hg⟩
  have hfirst := hG.groupFirst_le hg
  unfold Searched allocBlockIn
  rw [get_bind]
  simp only [hbg]
  by_cases hfree : bg.freeBlocksCount = 0
  · rw [if_pos hfree]
    exact .inl ⟨rfl, full_of_free_eq_zero hc hbg hfree⟩
  have hvalid := valid_pos_of_free (k := .block) hc hbg hfree
  have hplaced : bg.blockBitmap < fs.deviceBlocks := hG.placed hbg hvalid
  rw [if_neg hfree, if_neg (by omega), bind_ok (readFsBlock_eq hplaced), ← hG.valid_block]
  rcases findFirstClear_cases (k := .block) hc hbg rfl with ⟨hnone, hfull⟩ | ⟨i, hi, hsome, hbit, hrange⟩
  · left
    refine ⟨?_, hfull⟩
    simp only [BlockGroupDescriptor.bitmap] at hnone
    simp only [hnone]
    rfl
  · right
    refine ⟨i, hi, hbit, ?_⟩
    have hpos := hc.free_pos hbg hi hbit
    have htotal := hc.free_le_total (k := .block) hbg
    have hnz : ∀ buf, (fs.setDisk bg.blockBitmap buf).superBlock.freeBlocksCount ≠ 0 := fun _ => by
      show fs.superBlock.free .block ≠ 0
      omega
    have hper : i < fs.superBlock.perGroup .block := Nat.lt_of_lt_of_le hi SuperBlock.valid_le
    simp only [BlockGroupDescriptor.bitmap] at hsome hrange
    simp only [hsome, Bitmap.set, hrange, if_true, pure_bind]
    rw [bind_ok (writeFsBlock_eq hro hplaced _), get_bind, if_neg (hnz _), set_bind, mark_number hbg hper]
    rfl

theorem allocInodeIn_spec (hc : fs.Consistent) (hro : fs.readOnly = false) (hg : g < fs.blockGroups.length) :
    Searched .inode allocInodeIn fs g := by
  have hG := hc.toGeometry
  obtain ⟨bg, hbg⟩ : ∃ bg, fs.blockGroups[g]? = some bg := ⟨_, List.getElem?_eq_getElem hg⟩
  have hlow := hG.inodesLow
  unfold Searched allocInodeIn
  rw [get_bind]
  simp only [hbg]
  by_cases hfree : bg.freeInodesCount = 0
  · rw [if_pos hfree]
    exact .inl ⟨rfl, full_of_free_eq_zero hc hbg hfree⟩
  have hvalid := valid_pos_of_free (k := .inode) hc hbg hfree
  have hplaced : bg.inodeBitmap < fs.deviceBlocks := hG.placed hbg hvalid
  rw [if_neg hfree, bind_ok (readFsBlock_eq hplaced), if_neg (by omega), ← hG.valid_inode hg]
  rcases findFirstClear_cases (k := .inode) hc hbg rfl with ⟨hnone, hfull⟩ | ⟨i, hi, hsome, hbit, hrange⟩
  · left
    refine ⟨?_, hfull⟩
    simp only [BlockGroupDescriptor.bitmap] at hnone
    simp only [hnone]
    rfl
  · right
    refine ⟨i, hi, hbit, ?_⟩
    have hpos := hc.free_pos hbg hi hbit
    have htotal := hc.free_le_total (k := .inode) hbg
    have hnz : ∀ buf, (fs.setDisk bg.inodeBitmap buf).superBlock.freeInodesCount ≠ 0 := fun _ => by
      show fs.superBlock.free .inode ≠ 0
      omega
    have hper : i < fs.superBlock.perGroup .inode := Nat.lt_of_lt_of_le hi SuperBlock.valid_le
    simp only [BlockGroupDescriptor.bitmap] at hsome hrange
    simp only [hsome, Bitmap.set, hrange, if_true, pure_bind]
    rw [bind_ok (writeFsBlock_eq hro hplaced _), get_bind, if_neg (hnz _), set_bind, mark_number hbg hper]
    rfl

/-- The loop over the groups finds an item unless all of them are full. -/
theorem firstFit_spec {search : Nat → FsM (Option Nat)} {order : List Nat}
    (hs : ∀ g ∈ order, Searched k search fs g) :
    (∃ g ∈ order, ∃ i < fs.superBlock.valid k g, fs.bit k g i = false ∧
      firstFit search order fs = .ok (fs.superBlock.number k g i) (fs.mark k (fs.superBlock.number k g i) true)) ∨
    (firstFit search order fs = .error (.err .noSpace) fs ∧
      ∀ g ∈ order, ∀ i < fs.superBlock.valid k g, fs.bit k g i = true) := by
  induction order with
  | nil => exact .inr ⟨rfl, nofun⟩
  | cons g rest ih =>
    rw [firstFit]
    rcases hs g (List.mem_cons_self ..) with ⟨hnone, hfull⟩ | ⟨i, hi, hbit, hsome⟩
    · rw [bind_ok hnone]
      rcases ih fun g' hg' => hs g' (List.mem_cons_of_mem _ hg') with ⟨g', hg', h⟩ | ⟨herr, hrest⟩
      · exact .inl ⟨g', List.mem_cons_of_mem _ hg', h⟩
      · refine .inr ⟨herr, fun g' hg' => ?_⟩
        rcases List.mem_cons.1 hg' with rfl | hg'
        · exact hfull
        · exact hrest g' hg'
    · rw [bind_ok hsome]
      exact .inl ⟨g, List.mem_cons_self .., i, hi, hbit, rfl⟩

/-- An allocation: a free number in range was taken, or there is none. -/
def Allocates (k : Kind) (alloc : FsM Nat) (fs : Ext2Fs) : Prop :=
  (∃ n, fs.superBlock.InRange k n ∧ ¬fs.Allocated k n ∧ alloc fs = .ok n (fs.mark k n true)) ∨
  (alloc fs = .error (.err .noSpace) fs ∧ ∀ n, fs.superBlock.InRange k n → fs.Allocated k n)

theorem not_allocated_number (hi : i < fs.superBlock.valid k g) (hbit : fs.bit k g i = false) :
    ¬fs.Allocated k (fs.superBlock.number k g i) := by
  have hper := Nat.lt_of_lt_of_le hi SuperBlock.valid_le
  rintro ⟨-, h⟩
  rw [SuperBlock.groupOf_number hper, SuperBlock.bitOf_number hper, hbit] at h
  cases h

/-- A search through all groups is an allocation. -/
theorem allocates_of_firstFit (hG : fs.Geometry) {search : Nat → FsM (Option Nat)} {order : List Nat} {alloc : FsM Nat}
    (heq : alloc fs = firstFit search order fs) (hs : ∀ g ∈ order, Searched k search fs g)
    (hall : ∀ g < fs.blockGroups.length, g ∈ order) : Allocates k alloc fs := by
  rcases firstFit_spec hs with ⟨g, -, i, hi, hbit, h⟩ | ⟨h, hfull⟩
  · exact .inl ⟨_, SuperBlock.inRange_number hi, not_allocated_number hi hbit, heq.trans h⟩
  · refine .inr ⟨heq.trans h, fun n hn => ⟨hn, ?_⟩⟩
    obtain ⟨bg, hbg⟩ := hG.exists_group hn
    exact hfull _ (hall _ (List.getElem?_eq_some_iff.1 hbg).1) _ (SuperBlock.bitOf_lt_valid (hG.perGroup k).1 hn)

/-- **Allocating a block**, from any goal group. -/
theorem allocBlockGoal_spec (hc : fs.Consistent) (hro : fs.readOnly = false) (goalGroup : Nat) :
    Allocates .block (allocBlockGoal goalGroup) fs := by
  have hmem : ∀ g, g ∈ (List.range fs.blockGroups.length).map (fun step => (goalGroup + step) % fs.blockGroups.length) ↔
      g < fs.blockGroups.length := by
    intro g
    rw [List.mem_map]
    constructor
    · rintro ⟨step, hstep, rfl⟩
      have := List.mem_range.1 hstep
      exact Nat.mod_lt _ (by omega)
    · intro hg
      -- the step that leads from the goal group to `g`
      refine ⟨(g + (fs.blockGroups.length - goalGroup % fs.blockGroups.length)) % fs.blockGroups.length,
        List.mem_range.2 (Nat.mod_lt _ (by omega)), ?_⟩
      have hlt : goalGroup % fs.blockGroups.length < fs.blockGroups.length := Nat.mod_lt _ (by omega)
      rw [Nat.add_mod_mod, ← Nat.mod_add_mod,
        show goalGroup % fs.blockGroups.length + (g + (fs.blockGroups.length - goalGroup % fs.blockGroups.length)) =
          g + fs.blockGroups.length by omega, Nat.add_mod_right, Nat.mod_eq_of_lt hg]
  refine allocates_of_firstFit hc.toGeometry ?_ (fun g hg => allocBlockIn_spec hc hro ((hmem g).1 hg))
    fun g hg => (hmem g).2 hg
  rw [allocBlockGoal, get_bind, if_neg (by simp [hro])]

/-- **Allocating an inode.** -/
theorem allocInode_spec (hc : fs.Consistent) (hro : fs.readOnly = false) : Allocates .inode allocInode fs := by
  refine allocates_of_firstFit hc.toGeometry ?_ (fun g hg => allocInodeIn_spec hc hro (List.mem_range.1 hg))
    fun g hg => List.mem_range.2 hg
  rw [allocInode, get_bind, if_neg (by simp [hro])]

/-- Clearing a bit of the bitmap. -/
theorem bitmap_clear (hc : fs.Consistent) (data : Bytes) (hi : i < fs.superBlock.perGroup k) (fs' : Ext2Fs) :
    Bitmap.clear ⟨data, fs.blockSize, fs.superBlock.perGroup k⟩ i fs' =
      .ok ⟨writeBitAt false data i, fs.blockSize, fs.superBlock.perGroup k⟩ fs' := by
  have hin : Bitmap.inRange ⟨data, fs.blockSize, fs.superBlock.perGroup k⟩ i = true := by
    have := (hc.perGroup k).2.1
    simp only [Bitmap.inRange, decide_eq_true_eq]
    exact ⟨hi, Nat.div_lt_of_lt_mul (by omega)⟩
  rw [Bitmap.clear, if_pos hin]
  rfl

theorem getGroup_eq (hg : fs.blockGroups[g]? = some bg) : getGroup g fs = .ok bg fs := by
  rw [getGroup, get_bind, hg]
  rfl

/-- The counters have room for an item that is given back. -/
theorem no_overflow (hc : fs.Consistent) (hn : fs.Allocated k n)
    (hg : fs.blockGroups[fs.superBlock.groupOf k n]? = some bg) :
    ¬(bg.free k + 1 ≥ 2 ^ 16 ∨ fs.superBlock.free k + 1 ≥ 2 ^ 32) := by
  have hi := SuperBlock.bitOf_lt_valid (hc.perGroup k).1 hn.1
  have h₁ := hc.free_lt hg hi hn.2
  have h₂ := hc.total_lt hg hi hn.2
  have h₃ := (hc.perGroup k).2.2
  have h₄ : fs.superBlock.size k < 2 ^ 32 := by
    cases k with
    | block => exact Nat.lt_of_le_of_lt (Nat.sub_le ..) hc.blocks
    | inode => exact hc.inodes
  omega

/-- **Freeing a block** that is allocated. -/
theorem freeBlock_spec (hc : fs.Consistent) (hro : fs.readOnly = false) (hn : fs.Allocated .block n) :
    freeBlock n fs = .ok ⟨⟩ (fs.mark .block n false) := by
  have hG := hc.toGeometry
  obtain ⟨bg, hbg⟩ := hG.exists_group hn.1
  have hi := SuperBlock.bitOf_lt_valid (hG.perGroup .block).1 hn.1
  have hplaced : bg.blockBitmap < fs.deviceBlocks := hG.placed (k := .block) hbg (by omega)
  have hper := Nat.lt_of_lt_of_le hi SuperBlock.valid_le
  have hge : ¬n < fs.superBlock.firstDataBlock := Nat.not_lt.2 hn.1.1
  have hroom : ¬(bg.freeBlocksCount + 1 ≥ 2 ^ 16 ∨ fs.superBlock.freeBlocksCount + 1 ≥ 2 ^ 32) := no_overflow hc hn hbg
  rw [freeBlock, get_bind, if_neg (by simp [hro]), if_neg hge]
  refine (bind_ok (getGroup_eq hbg)).trans ?_
  refine (bind_ok (readFsBlock_eq hplaced)).trans ?_
  refine (bind_ok (bitmap_clear hc _ hper fs)).trans ?_
  refine (bind_ok (writeFsBlock_eq hro hplaced _)).trans ?_
  rw [get_bind, if_neg hroom, Ext2Fs.mark, hbg]
  rfl

/-- **Freeing an inode** that is allocated also drops its in-memory copy. -/
theorem freeInode_spec (hc : fs.Consistent) (hro : fs.readOnly = false) (hn : fs.Allocated .inode n) :
    freeInode n fs = .ok ⟨⟩ { fs.mark .inode n false with inodeCache := Function.update fs.inodeCache n none } := by
  have hG := hc.toGeometry
  obtain ⟨bg, hbg⟩ := hG.exists_group hn.1
  have hi := SuperBlock.bitOf_lt_valid (hG.perGroup .inode).1 hn.1
  have hplaced : bg.inodeBitmap < fs.deviceBlocks := hG.placed (k := .inode) hbg (by omega)
  have hper := Nat.lt_of_lt_of_le hi SuperBlock.valid_le
  have hge : ¬n = 0 := Nat.pos_iff_ne_zero.1 hn.1.1
  have hroom : ¬(bg.freeInodesCount + 1 ≥ 2 ^ 16 ∨ fs.superBlock.freeInodesCount + 1 ≥ 2 ^ 32) := no_overflow hc hn hbg
  rw [freeInode, get_bind, if_neg hge, if_neg (by simp [hro])]
  refine (bind_ok (getGroup_eq hbg)).trans ?_
  refine (bind_ok (readFsBlock_eq hplaced)).trans ?_
  refine (bind_ok (bitmap_clear hc _ hper fs)).trans ?_
  refine (bind_ok (writeFsBlock_eq hro hplaced _)).trans ?_
  rw [get_bind, if_neg hroom, set_bind, Ext2Fs.mark, hbg]
  rfl

end Operations

/-! ## Runs -/

section Runs

/-- The two allocators; an inode has no goal group. -/
def alloc : Kind → (goalGroup : Nat) → FsM Nat
  | .block, goalGroup => allocBlockGoal goalGroup
  | .inode, _ => allocInode

def release : Kind → Nat → FsM Unit
  | .block, n => freeBlock n
  | .inode, n => freeInode n

/-- Sequences of calls that free only what is allocated. `live` is what they allocated and did not free. -/
inductive Run (fs₀ : Ext2Fs) : Ext2Fs → Set (Kind × Nat) → Prop where
  | start : Run fs₀ fs₀ ∅
  | alloc {fs fs' live k goalGroup n} (h : Run fs₀ fs live) (hres : alloc k goalGroup fs = .ok n fs') :
      Run fs₀ fs' (insert (k, n) live)
  | release {fs fs' live k n} (h : Run fs₀ fs live) (hn : fs.Allocated k n) (hres : release k n fs = .ok ⟨⟩ fs') :
      Run fs₀ fs' (live \ {(k, n)})
  | allocFailed {fs fs' live k goalGroup e} (h : Run fs₀ fs live) (hres : alloc k goalGroup fs = .error e fs') :
      Run fs₀ fs' live
  | releaseFailed {fs fs' live k n e} (h : Run fs₀ fs live) (hn : fs.Allocated k n)
      (hres : release k n fs = .error e fs') : Run fs₀ fs' live

variable {fs₀ fs fs' : Ext2Fs} {k : Kind} {n : Nat} {live : Set (Kind × Nat)}

theorem alloc_readOnly (hro : fs.readOnly = true) (k : Kind) (goalGroup : Nat) :
    alloc k goalGroup fs = .error (.err .readOnly) fs := by
  cases k
  · rw [alloc, allocBlockGoal, get_bind, if_pos hro]
    rfl
  · rw [alloc, allocInode, get_bind, if_pos hro]
    rfl

theorem alloc_spec (hc : fs.Consistent) (hro : fs.readOnly = false) (k : Kind) (goalGroup : Nat) :
    Allocates k (alloc k goalGroup) fs := by
  cases k with
  | block => exact allocBlockGoal_spec hc hro goalGroup
  | inode => exact allocInode_spec hc hro

theorem release_readOnly (hro : fs.readOnly = true) (hn : fs.Allocated k n) :
    release k n fs = .error (.err .readOnly) fs := by
  cases k with
  | block =>
    rw [release, freeBlock, get_bind, if_pos hro]
    rfl
  | inode =>
    have hpos : ¬n = 0 := Nat.pos_iff_ne_zero.1 hn.1.1
    rw [release, freeInode, get_bind, if_neg hpos, if_pos hro]
    rfl

/-- The in-memory inodes are not part of the accounting. -/
theorem consistent_withCache (hc : fs.Consistent) (cache : Nat → Option RawInode) :
    ({ fs with inodeCache := cache } : Ext2Fs).Consistent where
  groups := hc.groups
  perGroup := hc.perGroup
  first := hc.first
  blocks := hc.blocks
  inodes := hc.inodes
  inodesLow := hc.inodesLow
  inodesHigh := hc.inodesHigh
  placed := hc.placed
  distinct := hc.distinct
  group := hc.group
  total := hc.total

theorem release_spec (hc : fs.Consistent) (hro : fs.readOnly = false) (hn : fs.Allocated k n) :
    ∃ cache, release k n fs = .ok ⟨⟩ { fs.mark k n false with inodeCache := cache } := by
  cases k with
  | block => exact ⟨_, freeBlock_spec hc hro hn⟩
  | inode => exact ⟨_, freeInode_spec hc hro hn⟩

/-- What a run keeps: the accounting, the range of numbers, and the items it holds. -/
structure Accounted (fs₀ fs : Ext2Fs) (live : Set (Kind × Nat)) : Prop where
  consistent : fs.Consistent
  inRange : ∀ k n, fs.superBlock.InRange k n ↔ fs₀.superBlock.InRange k n
  live : ∀ {k n}, (k, n) ∈ live → fs.Allocated k n

theorem alloc_cases (hc : fs.Consistent) (k : Kind) (goalGroup : Nat) :
    (∃ n, fs.superBlock.InRange k n ∧ ¬fs.Allocated k n ∧ alloc k goalGroup fs = .ok n (fs.mark k n true)) ∨
    (alloc k goalGroup fs = .error (.err .noSpace) fs ∧ ∀ n, fs.superBlock.InRange k n → fs.Allocated k n) ∨
    (alloc k goalGroup fs = .error (.err .readOnly) fs ∧ fs.readOnly = true) := by
  cases hro : fs.readOnly with
  | true => exact .inr (.inr ⟨alloc_readOnly hro k goalGroup, rfl⟩)
  | false =>
    rcases alloc_spec hc hro k goalGroup with h | h
    · exact .inl h
    · exact .inr (.inl h)

theorem release_cases (hc : fs.Consistent) (hn : fs.Allocated k n) :
    (∃ cache, release k n fs = .ok ⟨⟩ { fs.mark k n false with inodeCache := cache }) ∨
    (release k n fs = .error (.err .readOnly) fs ∧ fs.readOnly = true) := by
  cases hro : fs.readOnly with
  | true => exact .inr ⟨release_readOnly hro hn, rfl⟩
  | false => exact .inl (release_spec hc hro hn)

theorem run_accounted (h₀ : fs₀.Consistent) (h : Run fs₀ fs live) : Accounted fs₀ fs live := by
  induction h with
  | start => exact ⟨h₀, fun _ _ => Iff.rfl, nofun⟩
  | @alloc fs fs' live k goalGroup n _ hres ih =>
    obtain ⟨n', hn', hfree, h⟩ | ⟨h, -⟩ | ⟨h, -⟩ := alloc_cases ih.consistent k goalGroup
    · obtain ⟨rfl, rfl⟩ : n' = n ∧ fs.mark k n' true = fs' := by
        rw [h] at hres
        cases hres
        exact ⟨rfl, rfl⟩
      have hbit : fs.bit k (fs.superBlock.groupOf k n') (fs.superBlock.bitOf k n') = false := by
        rw [← Bool.not_eq_true]
        exact fun hset => hfree ⟨hn', hset⟩
      refine ⟨mark_consistent ih.consistent hn' hbit, fun k' m => ?_, fun {k' m} hm => ?_⟩
      · rw [inRange_mark, ih.inRange]
      · rw [allocated_mark ih.consistent.toGeometry hn']
        rcases Set.mem_insert_iff.1 hm with heq | hm
        · obtain ⟨rfl, rfl⟩ := Prod.mk.inj heq
          simp
        · split
          · rfl
          · exact ih.live hm
    all_goals
      rw [h] at hres
      cases hres
  | @release fs fs' live k n _ hn hres ih =>
    obtain ⟨cache, h⟩ | ⟨h, -⟩ := release_cases ih.consistent hn
    · obtain rfl : { fs.mark k n false with inodeCache := cache } = fs' := by
        rw [h] at hres
        cases hres
        rfl
      refine ⟨consistent_withCache (mark_consistent (v := false) ih.consistent hn.1 hn.2) cache, fun k' m => ?_, fun {k' m} hm => ?_⟩
      · exact (inRange_mark k' m).trans (ih.inRange k' m)
      · refine (allocated_mark ih.consistent.toGeometry hn.1).2 ?_
        rw [if_neg fun heq => hm.2 (by rw [heq.1, heq.2]; rfl)]
        exact ih.live hm.1
    · rw [h] at hres
      cases hres
  | @allocFailed fs fs' live k goalGroup e _ hres ih =>
    obtain ⟨n', -, -, h⟩ | ⟨h, -⟩ | ⟨h, -⟩ := alloc_cases ih.consistent k goalGroup
    all_goals
      rw [h] at hres
      cases hres
    all_goals exact ih
  | @releaseFailed fs fs' live k n e _ hn hres ih =>
    obtain ⟨cache, h⟩ | ⟨h, -⟩ := release_cases ih.consistent hn
    all_goals
      rw [h] at hres
      cases hres
    exact ih

/-- **Allocation accounting.** In every run from a consistent image the counters agree with each other and with the bitmaps,
no call panics, an allocation hands out a free number of the filesystem that no live allocation has, and fails only when
there is none. -/
theorem allocation_accounting (h₀ : fs₀.Consistent) (h : Run fs₀ fs live) :
    (∀ k, fs.superBlock.free k = (fs.blockGroups.map (·.free k)).sum ∧ fs.superBlock.free k = fs.clearBits k) ∧
    (∀ k goalGroup, match alloc k goalGroup fs with
      | .ok n fs' => fs₀.superBlock.InRange k n ∧ ¬fs.Allocated k n ∧ (k, n) ∉ live ∧ fs'.Allocated k n
      | .error e fs' => fs' = fs ∧ ((e = .err .readOnly ∧ fs.readOnly = true) ∨
          (e = .err .noSpace ∧ ∀ n, fs₀.superBlock.InRange k n → fs.Allocated k n))) ∧
    (∀ k n, fs.Allocated k n → match release k n fs with
      | .ok _ fs' => ¬fs'.Allocated k n
      | .error e fs' => fs' = fs ∧ e = .err .readOnly ∧ fs.readOnly = true) := by
  have hacc := run_accounted h₀ h
  have hc := hacc.consistent
  refine ⟨fun k => ⟨hc.total k, by rw [hc.total, hc.sum_free]⟩, fun k goalGroup => ?_, fun k n hn => ?_⟩
  · obtain ⟨n, hn, hfree, h⟩ | ⟨h, hfull⟩ | ⟨h, hro⟩ := alloc_cases hc k goalGroup
    · rw [h]
      refine ⟨(hacc.inRange k n).1 hn, hfree, fun hlive => hfree (hacc.live hlive), ?_⟩
      rw [allocated_mark hc.toGeometry hn]
      simp
    · rw [h]
      exact ⟨rfl, .inr ⟨rfl, fun n hn => hfull n ((hacc.inRange k n).2 hn)⟩⟩
    · rw [h]
      exact ⟨rfl, .inl ⟨rfl, hro⟩⟩
  · obtain ⟨cache, h⟩ | ⟨h, hro⟩ := release_cases hc hn
    · rw [h]
      intro hall
      have := (allocated_mark hc.toGeometry hn.1).1 hall
      simp at this
    · rw [h]
      exact ⟨rfl, rfl, hro⟩

/-- Two groups, the second one short of a block; everything is free. -/
def emptyImage : Ext2Fs where
  deviceBlocks := 16
  superBlock := ⟨8, 16, 15, 8, 1, 0, 8, 4, 128, 2, 0⟩
  blockGroups := [⟨3, 4, 5, 8, 4, 0⟩, ⟨11, 12, 13, 7, 4, 0⟩]
  readOnly := false
  disk := fun _ _ => 0
  inodeCache := fun _ => none

theorem emptyImage_consistent : emptyImage.Consistent where
  groups := rfl
  perGroup := fun k => by cases k <;> decide
  first := by decide
  blocks := by decide
  inodes := by decide
  inodesLow := by decide
  inodesHigh := by decide
  placed := by
    rintro k (_ | _ | g) bg hg -
    · obtain rfl := Option.some.inj hg
      cases k <;> decide
    · obtain rfl := Option.some.inj hg
      cases k <;> decide
    · cases hg
  distinct := by
    rintro k (_ | _ | g) bg k' (_ | _ | g') bg' hg hg' - - heq
    all_goals first | cases hg; done | cases hg'; done | skip
    all_goals
      obtain rfl := Option.some.inj hg
      obtain rfl := Option.some.inj hg'
      revert heq
      cases k <;> cases k' <;> decide
  group := by
    rintro k (_ | _ | g) bg hg
    · obtain rfl := Option.some.inj hg
      cases k <;> decide
    · obtain rfl := Option.some.inj hg
      cases k <;> decide
    · cases hg
  total := fun k => by cases k <;> decide

/-- Two blocks and an inode are allocated, and the first block is released. -/
theorem allocation_accounting_with_release :
    ∃ fs live, Run emptyImage fs live ∧ (Kind.block, 10) ∈ live ∧ (Kind.inode, 1) ∈ live ∧ (Kind.block, 9) ∉ live ∧
      fs.superBlock.freeBlocksCount = 14 ∧ fs.clearBits .block = 14 ∧ fs.superBlock.freeInodesCount = 7 ∧
      fs.clearBits .inode = 7 := by
  have hfirst : Run emptyImage (emptyImage.mark .block 9 true) (insert (.block, 9) ∅) :=
    @Run.alloc _ _ _ _ .block 1 _ .start rfl
  have hsecond : Run emptyImage ((emptyImage.mark .block 9 true).mark .block 10 true)
      (insert (.block, 10) (insert (.block, 9) ∅)) := @Run.alloc _ _ _ _ .block 1 _ hfirst rfl
  have hinode : Run emptyImage (((emptyImage.mark .block 9 true).mark .block 10 true).mark .inode 1 true)
      (insert (.inode, 1) (insert (.block, 10) (insert (.block, 9) ∅))) := @Run.alloc _ _ _ _ .inode 0 _ hsecond rfl
  have hrun : Run emptyImage
      ((((emptyImage.mark .block 9 true).mark .block 10 true).mark .inode 1 true).mark .block 9 false)
      (insert (.inode, 1) (insert (.block, 10) (insert (.block, 9) ∅)) \ {(.block, 9)}) :=
    @Run.release _ _ _ _ .block 9 hinode ⟨⟨by decide, by decide⟩, by decide⟩ rfl
  have hcount := (allocation_accounting emptyImage_consistent hrun).1
  exact ⟨_, _, hrun, by simp, by simp, by simp, rfl, (hcount .block).2.symm, rfl, (hcount .inode).2.symm⟩

end Runs

end Koros.Ext2
