import Koros.Frame.Single
import Koros.Heap.Lists

/-!
# Soundness of the slab heap

The memory of the heap is cut into pieces: the free blocks of the size classes, the blocks and the extents that are live.
`Partition` says that the pieces are disjoint and that each lies in the bootstrap region or in an extent that the heap holds;
it follows each free list through memory. Every call keeps it, and so does every write of a client to its own allocations.

- `alloc_partition`, `dealloc_partition`: one call;
- `heap_sound`: every run.
-/
set_option autoImplicit false

namespace Koros.Heap

open Koros.Lib Koros.Frame SlabHeap

/-! ## Pieces of memory -/

/-- An address and a length. -/
abbrev Piece := Nat × Nat

namespace Piece

def Apart (x y : Piece) : Prop := x.1 + x.2 ≤ y.1 ∨ y.1 + y.2 ≤ x.1

def Within (x y : Piece) : Prop := y.1 ≤ x.1 ∧ x.1 + x.2 ≤ y.1 + y.2

theorem Apart.symm {x y : Piece} (h : Apart x y) : Apart y x := Or.symm h

instance : Std.Symm Apart := ⟨fun _ _ => Apart.symm⟩

theorem Apart.mono {x y x' y' : Piece} (h : Apart x y) (hx : Within x' x) (hy : Within y' y) : Apart x' y' := by
  unfold Apart Within at *
  omega

end Piece

/-- The free blocks of all classes. -/
def freePieces (L : SlabClass → List Nat) : List Piece := classes.flatMap fun c => (L c).map fun a => (a, blockSize c)

/-- What is set aside for a live allocation. -/
def livePiece (x : Nat × Layout) : Piece :=
  if classFor x.2 = .large then
    (x.1, ((largeExtentFrames x.2).bind checkedNextPowerOfTwo).getD 0 * pageSize)
  else (x.1, blockSize (classFor x.2))

/-- The range of kernel addresses of an extent. -/
def vaOf (offset : Nat) (e : Extent) : Piece := (e.phys + offset, e.size * pageSize)

/-- A region of frames is mapped, and apart from the bootstrap heap. -/
def Mapped (offset start size : Nat) (r : Region) : Prop :=
  (r.startPpn + r.frames) * pageSize + offset ≤ 2 ^ 64 ∧
  (start + size ≤ r.startPpn * pageSize + offset ∨ (r.startPpn + r.frames) * pageSize + offset ≤ start)

/-- The partition of memory. `L` are the free lists, `held` the extents that the heap has taken. -/
structure Partition (offset start size : Nat) (h : LockedSlabHeap) (live : List (Nat × Layout)) (other : List Extent)
    (heap : SlabHeap) (L : SlabClass → List Nat) (held : List Extent) : Prop where
  heap_eq : h.heap = some heap
  slab : ∀ c ∈ classes, ∃ head, heap.slab c = some ⟨blockSize c, head⟩ ∧ Chain h.mem head (L c)
  frames : Inv h.frames (held ++ other)
  mapped : ∀ r ∈ h.frames.regions, Mapped offset start size r
  pieces : (freePieces L ++ live.map livePiece).Pairwise Piece.Apart
  home : ∀ x ∈ freePieces L ++ live.map livePiece, 0 < x.2 ∧
    (x.Within (start, size) ∨ ∃ e ∈ held, x.Within (vaOf offset e))
  aligned : ∀ c ∈ classes, ∀ a ∈ L c, blockSize c ∣ a
  live_ok : ∀ x ∈ live, x.2.Valid ∧ x.1 ≠ 0 ∧ (classFor x.2 ≠ .large → blockSize (classFor x.2) ∣ x.1) ∧
    (classFor x.2 = .large → ∃ e ∈ held, x.1 = e.phys + offset ∧ largeExtentFrames x.2 = some e.count)

/-! ## Classes -/

theorem mem_classes {c : SlabClass} : c ∈ classes ↔ c ≠ .large := by cases c <;> decide

theorem blockSize_pos {c : SlabClass} (h : c ∈ classes) : 64 ≤ blockSize c ∧ blockSize c ∣ pageSize := by
  revert h
  cases c <;> decide

/-- A class fits its layouts. -/
theorem classFor_fits {l : Layout} (h : classFor l ≠ .large) :
    l.size ≤ blockSize (classFor l) ∧ l.align ≤ blockSize (classFor l) := by
  have hps : pageSize = 4096 := rfl
  revert h
  unfold classFor
  split_ifs <;> simp only [blockSize, ne_eq, not_true_eq_false, false_implies, reduceCtorEq, not_false_eq_true,
    true_implies] <;> omega

theorem blockSize_eq_two_pow {c : SlabClass} (h : c ∈ classes) : ∃ k, blockSize c = 2 ^ k := by
  cases c with
  | bytes64 => exact ⟨6, rfl⟩
  | bytes128 => exact ⟨7, rfl⟩
  | bytes256 => exact ⟨8, rfl⟩
  | bytes512 => exact ⟨9, rfl⟩
  | bytes1024 => exact ⟨10, rfl⟩
  | bytes2048 => exact ⟨11, rfl⟩
  | bytes4096 => exact ⟨12, rfl⟩
  | large => exact absurd rfl (mem_classes.1 h)

theorem two_pow_dvd {a b : Nat} (ha : ∃ k, a = 2 ^ k) (hb : ∃ k, b = 2 ^ k) (h : a ≤ b) : a ∣ b := by
  obtain ⟨j, rfl⟩ := ha
  obtain ⟨k, rfl⟩ := hb
  exact Nat.pow_dvd_pow 2 ((Nat.pow_le_pow_iff_right (by decide)).1 h)

/-! ## The free pieces -/

theorem mem_freePieces {L : SlabClass → List Nat} {x : Piece} :
    x ∈ freePieces L ↔ ∃ c ∈ classes, ∃ a ∈ L c, x = (a, blockSize c) := by
  simp only [freePieces, List.mem_flatMap, List.mem_map]
  constructor
  · rintro ⟨c, hc, a, ha, rfl⟩
    exact ⟨c, hc, a, ha, rfl⟩
  · rintro ⟨c, hc, a, ha, rfl⟩
    exact ⟨c, hc, a, ha, rfl⟩

/-- Blocks added to one list are pieces added to the rest. -/
theorem flatMap_perm {cs : List SlabClass} {L L' : SlabClass → List Nat} {c : SlabClass} {xs : List Nat} (hnd : cs.Nodup)
    (hc : c ∈ cs) (hsame : ∀ d, d ≠ c → L' d = L d) (hperm : (L' c).Perm (xs ++ L c)) :
    (cs.flatMap fun d => (L' d).map fun a => (a, blockSize d)).Perm
      (xs.map (fun a => (a, blockSize c)) ++ cs.flatMap fun d => (L d).map fun a => (a, blockSize d)) := by
  induction cs with
  | nil => cases hc
  | cons d cs ih =>
    rw [List.flatMap_cons, List.flatMap_cons]
    obtain ⟨hd, hnd⟩ := List.nodup_cons.1 hnd
    by_cases heq : d = c
    · subst heq
      have htail : (cs.flatMap fun e => (L' e).map fun a => (a, blockSize e)) =
          cs.flatMap fun e => (L e).map fun a => (a, blockSize e) := by
        refine List.flatMap_congr fun e he => ?_
        rw [hsame e fun h => hd (h ▸ he)]
      rw [htail, ← List.append_assoc, ← List.map_append]
      exact (hperm.map _).append_right _
    · rw [hsame d heq]
      refine (List.Perm.append_left _ (ih hnd (List.mem_of_ne_of_mem (Ne.symm heq) hc))).trans ?_
      exact List.perm_append_comm_assoc _ _ _

theorem freePieces_perm {L L' : SlabClass → List Nat} {c : SlabClass} (xs : List Nat) (hc : c ∈ classes)
    (hsame : ∀ d, d ≠ c → L' d = L d) (hperm : (L' c).Perm (xs ++ L c)) :
    (freePieces L').Perm (xs.map (fun a => (a, blockSize c)) ++ freePieces L) :=
  flatMap_perm (by decide) hc hsame hperm

/-! ## Extents -/

section Extents

variable {offset start size : Nat} {a : FrameAllocator} {e f : Extent} {exts : List Extent}

theorem va_apart (hI : Inv a (e :: exts)) (hf : f ∈ exts) : Piece.Apart (vaOf offset e) (vaOf offset f) := by
  have hd := (List.pairwise_cons.1 hI.disjoint).1 f hf
  have he := hI.placed e (List.mem_cons_self ..)
  have hf := hI.placed f (List.mem_cons_of_mem _ hf)
  have hepos := he.size_pos
  have hfpos := hf.size_pos
  have hppn : e.ppn + e.size ≤ f.ppn ∨ f.ppn + f.size ≤ e.ppn := by
    by_contra hcon
    refine hd (max e.ppn f.ppn) ⟨⟨?_, ?_⟩, ⟨?_, ?_⟩⟩ <;> omega
  have h₁ : e.phys = e.ppn * pageSize := (Nat.div_mul_cancel (Nat.dvd_of_mod_eq_zero he.aligned)).symm
  have h₂ : f.phys = f.ppn * pageSize := (Nat.div_mul_cancel (Nat.dvd_of_mod_eq_zero hf.aligned)).symm
  unfold Piece.Apart vaOf
  rw [h₁, h₂]
  rcases hppn with h | h
  · left
    have := Nat.mul_le_mul_right pageSize h
    rw [Nat.add_mul] at this
    show e.ppn * pageSize + offset + e.size * pageSize ≤ f.ppn * pageSize + offset
    omega
  · right
    have := Nat.mul_le_mul_right pageSize h
    rw [Nat.add_mul] at this
    show f.ppn * pageSize + offset + f.size * pageSize ≤ e.ppn * pageSize + offset
    omega

/-- An extent is mapped, apart from the bootstrap heap. -/
theorem va_mapped (hI : Inv a exts) (hm : ∀ r ∈ a.regions, Mapped offset start size r) (he : e ∈ exts) :
    e.phys + offset + e.size * pageSize ≤ 2 ^ 64 ∧ Piece.Apart (vaOf offset e) (start, size) := by
  have hp := hI.placed e he
  have hphys : e.phys = e.ppn * pageSize := (Nat.div_mul_cancel (Nat.dvd_of_mod_eq_zero hp.aligned)).symm
  obtain ⟨r, hr, h₁, h₂⟩ := hp.inside
  obtain ⟨h₃, h₄⟩ := hm r hr
  have h₅ := Nat.mul_le_mul_right pageSize h₁
  have h₆ := Nat.mul_le_mul_right pageSize h₂
  rw [Nat.add_mul] at h₆
  unfold Piece.Apart vaOf
  rw [hphys]
  refine ⟨by omega, ?_⟩
  show e.ppn * pageSize + offset + e.size * pageSize ≤ start ∨ start + size ≤ e.ppn * pageSize + offset
  omega

/-- An extent is aligned to any power of two up to its size. -/
theorem phys_aligned (hI : Inv a exts) (he : e ∈ exts) {n : Nat} (hn : ∃ k, n = 2 ^ k) (hle : n ≤ e.size * pageSize) :
    n ∣ e.phys := by
  have hp := hI.placed e he
  obtain ⟨k, -, hk, -⟩ := checkedNextPowerOfTwo_spec hp.size_eq
  have hsize : e.size * pageSize = 2 ^ (k + 12) := by rw [hk, Nat.pow_add]; rfl
  have hphys : e.phys = e.ppn * pageSize := (Nat.div_mul_cancel (Nat.dvd_of_mod_eq_zero hp.aligned)).symm
  refine Nat.dvd_trans (two_pow_dvd hn ⟨_, hsize⟩ hle) ?_
  rw [hphys]
  exact Nat.mul_dvd_mul_right hp.dvd _

/-- The allocator tracks the frames below 4 GiB. -/
theorem extent_le (hI : Inv a exts) (he : e ∈ exts) : e.size * pageSize ≤ 2 ^ 32 := by
  obtain ⟨r, hr, h₁, h₂⟩ := (hI.placed e he).inside
  have hb := (hI.packed.bounds r hr).2
  have ht := hI.tracked_le
  have hmax : maxTrackedFrames = 2 ^ 20 := rfl
  have hps : pageSize = 2 ^ 12 := rfl
  calc e.size * pageSize ≤ 2 ^ 20 * pageSize := Nat.mul_le_mul_right _ (by omega)
    _ = 2 ^ 32 := by rw [hps, ← Nat.pow_add]

end Extents

/-! ## One slab changes -/

section Steps

variable {offset start size : Nat} {h : LockedSlabHeap} {live : List (Nat × Layout)} {other : List Extent}
  {heap : SlabHeap} {L : SlabClass → List Nat} {held : List Extent}

theorem setSlab_self (heap : SlabHeap) (c : SlabClass) (s : Slab) : (heap.setSlab c s).slab c = some s :=
  Function.update_self ..

theorem setSlab_of_ne (heap : SlabHeap) {c d : SlabClass} (hd : d ≠ c) (s : Slab) :
    (heap.setSlab c s).slab d = heap.slab d :=
  Function.update_of_ne hd ..

namespace Partition

/-- Two pieces at different places of the partition do not meet. -/
theorem free_apart_live (hP : Partition offset start size h live other heap L held) {x y : Piece} (hx : x ∈ freePieces L)
    (hy : y ∈ live.map livePiece) : x.Apart y :=
  (List.pairwise_append.1 hP.pieces).2.2 x hx y hy

theorem free_pairwise (hP : Partition offset start size h live other heap L held) {c : SlabClass} (hc : c ∈ classes) :
    (L c).Pairwise fun a b => Piece.Apart (a, blockSize c) (b, blockSize c) := by
  have hsub : ((L c).map fun a => (a, blockSize c)).Sublist (freePieces L) := by
    rw [freePieces, List.flatMap_def]
    exact List.sublist_flatten_of_mem (List.mem_map_of_mem hc)
  have := ((List.pairwise_append.1 hP.pieces).1.sublist hsub)
  rwa [List.pairwise_map] at this

theorem piece_lt (hP : Partition offset start size h live other heap L held) (hfit : start + size ≤ 2 ^ 64) {x : Piece}
    (hx : x ∈ freePieces L ++ live.map livePiece) : x.1 + x.2 ≤ 2 ^ 64 := by
  obtain ⟨-, hin | ⟨e, he, hin⟩⟩ := hP.home x hx
  · have := hin.2
    simp only at this
    omega
  · have := (va_mapped hP.frames hP.mapped (List.mem_append_left _ he)).1
    have := hin.2
    simp only [vaOf] at this
    omega

theorem mem_free (_ : Partition offset start size h live other heap L held) {c : SlabClass} (hc : c ∈ classes) {a : Nat}
    (ha : a ∈ L c) : (a, blockSize c) ∈ freePieces L ++ live.map livePiece :=
  List.mem_append_left _ (mem_freePieces.2 ⟨c, hc, a, ha, rfl⟩)

theorem head_lt (hP : Partition offset start size h live other heap L held) (hfit : start + size ≤ 2 ^ 64) {c : SlabClass}
    (hc : c ∈ classes) {head : Nat} (hchain : Chain h.mem head (L c)) : head < 2 ^ 64 := by
  rcases hchain.head_mem with rfl | hmem
  · decide
  · have := hP.piece_lt hfit (hP.mem_free hc hmem)
    have := (blockSize_pos hc).1
    simp only at *
    omega

end Partition

/-- **Popping a block** makes it live. -/
theorem pop_partition (hP : Partition offset start size h live other heap L held) {l : Layout} (hl : l.Valid)
    (hc : classFor l ∈ classes) {a head : Nat} {rest : List Nat}
    (hs : heap.slab (classFor l) = some ⟨blockSize (classFor l), head⟩) (hL : L (classFor l) = a :: rest) :
    head = a ∧ a ≠ 0 ∧
    Partition offset start size
      { h with heap := some (heap.setSlab (classFor l) ⟨blockSize (classFor l), leNat h.mem a 8⟩) } ((a, l) :: live) other
      (heap.setSlab (classFor l) ⟨blockSize (classFor l), leNat h.mem a 8⟩)
      (Function.update L (classFor l) rest) held := by
  obtain ⟨head', hs', hchain⟩ := hP.slab _ hc
  obtain rfl : head' = head := by
    rw [hs] at hs'
    cases hs'
    rfl
  rw [hL] at hchain
  obtain ⟨rfl, hne, hrest⟩ := hchain
  have hlarge := mem_classes.1 hc
  have hlp : livePiece (head', l) = (head', blockSize (classFor l)) := by rw [livePiece, if_neg hlarge]
  -- the block moves from the free pieces to the live ones
  have hfree : (freePieces L).Perm
      ((head', blockSize (classFor l)) :: freePieces (Function.update L (classFor l) rest)) := by
    refine freePieces_perm [head'] hc (fun d hd => (Function.update_of_ne hd ..).symm) ?_
    rw [Function.update_self, hL]
    exact List.Perm.refl _
  have hperm : (freePieces L ++ live.map livePiece).Perm
      (freePieces (Function.update L (classFor l) rest) ++ ((head', l) :: live).map livePiece) := by
    rw [List.map_cons, hlp]
    exact (hfree.append_right _).trans List.perm_middle.symm
  refine ⟨rfl, hne, ?_⟩
  constructor
  · rfl
  · intro d hd
    by_cases heq : d = classFor l
    · subst heq
      exact ⟨_, setSlab_self .., by rw [Function.update_self]; exact hrest⟩
    · obtain ⟨hd', h₁, h₂⟩ := hP.slab d hd
      exact ⟨hd', by rw [setSlab_of_ne _ heq]; exact h₁, by rw [Function.update_of_ne heq]; exact h₂⟩
  · exact hP.frames
  · exact hP.mapped
  · exact (hperm.pairwise_iff Piece.Apart.symm).1 hP.pieces
  · exact fun x hx => hP.home x (hperm.mem_iff.2 hx)
  · intro d hd b hb
    by_cases heq : d = classFor l
    · subst heq
      rw [Function.update_self] at hb
      exact hP.aligned _ hd b (by rw [hL]; exact List.mem_cons_of_mem _ hb)
    · rw [Function.update_of_ne heq] at hb
      exact hP.aligned d hd b hb
  · intro x hx
    rcases List.mem_cons.1 hx with rfl | hx
    · exact ⟨hl, hne, fun _ => hP.aligned _ hc _ (by rw [hL]; exact List.mem_cons_self ..), fun hbig => absurd hbig hlarge⟩
    · exact hP.live_ok x hx

/-- **Pushing a live block** makes it free. -/
theorem push_partition (hP : Partition offset start size h live other heap L held) (hfit : start + size ≤ 2 ^ 64)
    {x : Nat × Layout} (hx : x ∈ live) (hc : classFor x.2 ∈ classes) {head : Nat}
    (hs : heap.slab (classFor x.2) = some ⟨blockSize (classFor x.2), head⟩) :
    Partition offset start size
      { h with mem := putLe h.mem x.1 8 head, heap := some (heap.setSlab (classFor x.2) ⟨blockSize (classFor x.2), x.1⟩) }
      (live.erase x) other (heap.setSlab (classFor x.2) ⟨blockSize (classFor x.2), x.1⟩)
      (Function.update L (classFor x.2) (x.1 :: L (classFor x.2))) held := by
  obtain ⟨head', hs', hchain⟩ := hP.slab _ hc
  obtain rfl : head' = head := by
    rw [hs] at hs'
    cases hs'
    rfl
  obtain ⟨-, hne, hdvd, -⟩ := hP.live_ok x hx
  have hlarge := mem_classes.1 hc
  have hlp : livePiece x = (x.1, blockSize (classFor x.2)) := by rw [livePiece, if_neg hlarge]
  have hbs := (blockSize_pos hc).1
  have hfree : (freePieces (Function.update L (classFor x.2) (x.1 :: L (classFor x.2)))).Perm
      ((x.1, blockSize (classFor x.2)) :: freePieces L) := by
    refine freePieces_perm [x.1] hc (fun d hd => Function.update_of_ne hd ..) ?_
    rw [Function.update_self]
    exact List.Perm.refl _
  have hperm : (freePieces L ++ live.map livePiece).Perm
      (freePieces (Function.update L (classFor x.2) (x.1 :: L (classFor x.2))) ++ (live.erase x).map livePiece) := by
    have hlive : (live.map livePiece).Perm (livePiece x :: (live.erase x).map livePiece) :=
      (List.perm_cons_erase hx).map livePiece
    rw [hlp] at hlive
    exact ((hlive.append_left _).trans List.perm_middle).trans (hfree.symm.append_right _)
  -- the link word of the block meets no free block
  have hapart : ∀ d ∈ classes, ∀ b ∈ L d, b + 8 ≤ x.1 ∨ x.1 + 8 ≤ b := by
    intro d hd b hb
    have := hP.free_apart_live (mem_freePieces.2 ⟨d, hd, b, hb, rfl⟩) (List.mem_map_of_mem hx)
    have hbd := (blockSize_pos hd).1
    rw [hlp] at this
    rcases this with h | h
    · exact .inl (by simp only at h; omega)
    · exact .inr (by simp only at h; omega)
  constructor
  · rfl
  · intro d hd
    by_cases heq : d = classFor x.2
    · subst heq
      refine ⟨_, setSlab_self .., ?_⟩
      rw [Function.update_self]
      exact hchain.push hne (hP.head_lt hfit hc hchain) (hapart _ hc)
    · obtain ⟨hd', h₁, h₂⟩ := hP.slab d hd
      refine ⟨hd', by rw [setSlab_of_ne _ heq]; exact h₁, ?_⟩
      rw [Function.update_of_ne heq]
      exact h₂.congr fun b hb j h₁ h₂ => blit_of_outside (by rcases hapart d hd b hb with h | h <;> omega)
  · exact hP.frames
  · exact hP.mapped
  · exact (hperm.pairwise_iff Piece.Apart.symm).1 hP.pieces
  · exact fun y hy => hP.home y (hperm.mem_iff.2 hy)
  · intro d hd b hb
    by_cases heq : d = classFor x.2
    · subst heq
      rw [Function.update_self] at hb
      rcases List.mem_cons.1 hb with rfl | hb
      · exact hdvd hlarge
      · exact hP.aligned _ hd b hb
    · rw [Function.update_of_ne heq] at hb
      exact hP.aligned d hd b hb
  · exact fun y hy => hP.live_ok y (List.mem_of_mem_erase hy)

/-- New pieces inside an extent that was free. -/
theorem add_pieces (hP : Partition offset start size h live other heap L held) {a : FrameAllocator} {e : Extent}
    (xs : List Piece) (hI : Inv a (e :: (held ++ other))) (hm : ∀ r ∈ a.regions, Mapped offset start size r)
    (hin : ∀ x ∈ xs, 0 < x.2 ∧ x.Within (vaOf offset e)) (hpw : xs.Pairwise Piece.Apart) :
    (xs ++ (freePieces L ++ live.map livePiece)).Pairwise Piece.Apart ∧
    ∀ x ∈ xs ++ (freePieces L ++ live.map livePiece), 0 < x.2 ∧
      (x.Within (start, size) ∨ ∃ f ∈ e :: held, x.Within (vaOf offset f)) := by
  refine ⟨List.pairwise_append.2 ⟨hpw, hP.pieces, fun x hx y hy => ?_⟩, fun x hx => ?_⟩
  · obtain ⟨-, hy | ⟨f, hf, hy⟩⟩ := hP.home y hy
    · exact (va_mapped hI hm (List.mem_cons_self ..)).2.mono (hin x hx).2 hy
    · exact (va_apart hI (List.mem_append_left _ hf)).mono (hin x hx).2 hy
  · rcases List.mem_append.1 hx with hx | hx
    · exact ⟨(hin x hx).1, .inr ⟨e, List.mem_cons_self .., (hin x hx).2⟩⟩
    · obtain ⟨hpos, hy | ⟨f, hf, hy⟩⟩ := hP.home x hx
      · exact ⟨hpos, .inl hy⟩
      · exact ⟨hpos, .inr ⟨f, List.mem_cons_of_mem _ hf, hy⟩⟩

theorem mapped_of_ranges {a a' : FrameAllocator} (hr : ranges a' = ranges a)
    (hm : ∀ r ∈ a.regions, Mapped offset start size r) : ∀ r ∈ a'.regions, Mapped offset start size r := by
  intro r hr'
  have hmem : (r.startPpn, r.frames) ∈ ranges a := by
    rw [← hr]
    exact List.mem_map.2 ⟨r, hr', rfl⟩
  obtain ⟨s, hs, he⟩ := List.mem_map.1 hmem
  obtain ⟨h₁, h₂⟩ := Prod.mk.inj he
  have := hm s hs
  unfold Mapped at *
  rw [h₁, h₂] at this
  exact this

theorem toKa_eq {a : FrameAllocator} {e : Extent} {exts : List Extent} (hI : Inv a exts)
    (hm : ∀ r ∈ a.regions, Mapped offset start size r) (he : e ∈ exts) : toKa offset e.phys = e.phys + offset := by
  have h₁ := (va_mapped hI hm he).1
  have h₂ := (hI.placed e he).size_pos
  have : 0 < e.size * pageSize := Nat.mul_pos h₂ (by decide)
  exact Nat.mod_eq_of_lt (by omega)

/-- An extent of frames becomes blocks of one class. -/
theorem install_partition (hP : Partition offset start size h live other heap L held) (hfit : start + size ≤ 2 ^ 64)
    (hoff : pageSize ∣ offset) {c : SlabClass} (hc : c ∈ classes) {head : Nat} {a : FrameAllocator} {e : Extent}
    (hs : heap.slab c = some ⟨blockSize c, head⟩) (hI : Inv a (e :: (held ++ other)))
    (hm : ∀ r ∈ a.regions, Mapped offset start size r) :
    ∃ heap' L', Partition offset start size
      { h with
        mem := (Slab.grow ⟨blockSize c, head⟩ h.mem (e.phys + offset) (e.size * pageSize)).1
        heap := some (heap.setSlab c (Slab.grow ⟨blockSize c, head⟩ h.mem (e.phys + offset) (e.size * pageSize)).2)
        frames := a } live other heap' L' (e :: held) := by
  obtain ⟨head', hs', hchain⟩ := hP.slab _ hc
  obtain rfl : head' = head := by
    rw [hs] at hs'
    cases hs'
    rfl
  obtain ⟨hbs, hpage⟩ := blockSize_pos hc
  have hmap := va_mapped hI hm (List.mem_cons_self ..)
  -- the free blocks lie elsewhere
  have hapart : ∀ d ∈ classes, ∀ b ∈ L d, b + 8 ≤ e.phys + offset ∨ e.phys + offset + e.size * pageSize ≤ b := by
    intro d hd b hb
    have hbd := (blockSize_pos hd).1
    have hin : Piece.Apart (b, blockSize d) (vaOf offset e) := by
      obtain ⟨-, hy | ⟨f, hf, hy⟩⟩ := hP.home _ (hP.mem_free hd hb)
      · exact hmap.2.symm.mono hy ⟨Nat.le_refl _, Nat.le_refl _⟩
      · exact (va_apart hI (List.mem_append_left _ hf)).symm.mono hy ⟨Nat.le_refl _, Nat.le_refl _⟩
    rcases hin with h | h
    · exact .inl (by simp only [vaOf] at h; omega)
    · exact .inr h
  have hnodes : (L c).Pairwise fun a b => a + 8 ≤ b ∨ b + 8 ≤ a := by
    refine (hP.free_pairwise hc).imp fun {x y} hxy => ?_
    rcases hxy with h | h
    · exact .inl (by simp only at h; omega)
    · exact .inr (by simp only at h; omega)
  obtain ⟨head', new, hslab, hnew, hsub, hframe⟩ := grow_chain (s := ⟨blockSize c, head'⟩)
    (show 8 ≤ blockSize c by omega) hmap.1 hchain
    (hP.head_lt hfit hc hchain) (hapart c hc) hnodes
  have hinside : ∀ b ∈ new, b ∈ blocks (e.phys + offset) (blockSize c) (e.size * pageSize / blockSize c) := fun b hb =>
    List.mem_reverse.1 (hsub.subset hb)
  have hcount : e.size * pageSize / blockSize c * blockSize c ≤ e.size * pageSize := Nat.div_mul_le_self ..
  have hwithin : ∀ x ∈ new.map fun b => (b, blockSize c), 0 < x.2 ∧ Piece.Within x (vaOf offset e) := by
    intro x hx
    obtain ⟨b, hb, rfl⟩ := List.mem_map.1 hx
    have hb := block_inside (hinside b hb)
    exact ⟨show 0 < blockSize c by omega, hb.1, by show b + blockSize c ≤ e.phys + offset + e.size * pageSize; omega⟩
  have hpair : (new.map fun b => (b, blockSize c)).Pairwise Piece.Apart := by
    rw [List.pairwise_map]
    refine List.Pairwise.sublist hsub ?_
    rw [List.pairwise_reverse]
    exact (blocks_pairwise ..).imp fun h => .inr h
  obtain ⟨hpieces, hhome⟩ := add_pieces hP _ hI hm hwithin hpair
  have hperm : (new.map (fun b => (b, blockSize c)) ++ (freePieces L ++ live.map livePiece)).Perm
      (freePieces (Function.update L c (new ++ L c)) ++ live.map livePiece) := by
    rw [← List.append_assoc]
    refine (List.Perm.append_right _ (freePieces_perm new hc (fun d hd => ?_) ?_)).symm
    · exact Function.update_of_ne hd ..
    · rw [Function.update_self]
  refine ⟨heap.setSlab c ⟨blockSize c, head'⟩, Function.update L c (new ++ L c), ?_⟩
  constructor
  · show some (heap.setSlab c _) = _
    rw [hslab]
  · intro d hd
    by_cases heq : d = c
    · subst heq
      exact ⟨head', setSlab_self .., by rw [Function.update_self]; exact hnew⟩
    · obtain ⟨hd', h₁, h₂⟩ := hP.slab d hd
      refine ⟨hd', by rw [setSlab_of_ne _ heq]; exact h₁, ?_⟩
      rw [Function.update_of_ne heq]
      exact h₂.congr fun b hb j h₁ h₂ => hframe j (by rcases hapart d hd b hb with h | h <;> omega)
  · exact hI
  · exact hm
  · exact (hperm.pairwise_iff Piece.Apart.symm).1 hpieces
  · exact fun x hx => hhome x (hperm.mem_iff.2 hx)
  · intro d hd b hb
    by_cases heq : d = c
    · subst heq
      rw [Function.update_self] at hb
      rcases List.mem_append.1 hb with hb | hb
      · obtain ⟨i, -, rfl⟩ := mem_blocks.1 (hinside b hb)
        refine Nat.dvd_add (Nat.dvd_add ?_ (Nat.dvd_trans hpage hoff)) (Nat.dvd_mul_left ..)
        refine phys_aligned hI (List.mem_cons_self ..) (blockSize_eq_two_pow hd) ?_
        have hle := Nat.le_of_dvd (by decide) hpage
        have hpos := (hI.placed e (List.mem_cons_self ..)).size_pos
        calc blockSize d ≤ 1 * pageSize := by omega
          _ ≤ e.size * pageSize := Nat.mul_le_mul_right _ hpos
      · exact hP.aligned d hd b hb
    · rw [Function.update_of_ne heq] at hb
      exact hP.aligned d hd b hb
  · intro x hx
    obtain ⟨h₁, h₂, h₃, h₄⟩ := hP.live_ok x hx
    refine ⟨h₁, h₂, h₃, fun hbig => ?_⟩
    obtain ⟨f, hf, hx⟩ := h₄ hbig
    exact ⟨f, List.mem_cons_of_mem _ hf, hx⟩

/-- An extent that the heap takes, with or without a use for it. -/
theorem hold_partition (hP : Partition offset start size h live other heap L held) {a : FrameAllocator} {e : Extent}
    (hI : Inv a (e :: (held ++ other))) (hm : ∀ r ∈ a.regions, Mapped offset start size r) :
    Partition offset start size { h with frames := a } live other heap L (e :: held) where
  heap_eq := hP.heap_eq
  slab := hP.slab
  frames := hI
  mapped := hm
  pieces := hP.pieces
  home := (add_pieces hP [] hI hm nofun .nil).2
  aligned := hP.aligned
  live_ok := by
    intro x hx
    obtain ⟨h₁, h₂, h₃, h₄⟩ := hP.live_ok x hx
    refine ⟨h₁, h₂, h₃, fun hbig => ?_⟩
    obtain ⟨f, hf, hx⟩ := h₄ hbig
    exact ⟨f, List.mem_cons_of_mem _ hf, hx⟩

/-- **Refilling a class from frames.** -/
theorem growFromFrames_partition (hP : Partition offset start size h live other heap L held) (hfit : start + size ≤ 2 ^ 64)
    (hoff : pageSize ∣ offset) {c : SlabClass} (hc : c ∈ classes) :
    ∃ grown h' heap' L' held', h.growFromFrames offset c = some (grown, h') ∧
      Partition offset start size h' live other heap' L' held' := by
  unfold LockedSlabHeap.growFromFrames
  by_cases hg : ¬h.growth
  · rw [if_pos hg]
    exact ⟨_, _, _, _, _, rfl, hP⟩
  rw [if_neg hg, if_neg (mem_classes.1 hc)]
  rcases allocFrames_inv hP.frames GROW_PAGES with ⟨phys, a, ha, hI⟩ | ha
  · have hm := mapped_of_ranges (allocFrames_ranges ha) hP.mapped
    obtain ⟨head, hs, -⟩ := hP.slab c hc
    have hbytes : GROW_PAGES * pageSize = (⟨phys, GROW_PAGES⟩ : Extent).size * pageSize := by
      show _ = (checkedNextPowerOfTwo GROW_PAGES).getD 0 * pageSize
      decide
    have hva := toKa_eq hI hm (List.mem_cons_self ..)
    simp only at hva
    simp only [ha, Option.bind_eq_bind, Option.bind_some, hP.heap_eq, hs, hva, hbytes]
    obtain ⟨heap', L', hP'⟩ := install_partition hP hfit hoff hc hs hI hm
    exact ⟨_, _, _, _, _, rfl, hP'⟩
  · simp only [ha, Option.bind_eq_bind, Option.bind_some]
    exact ⟨_, _, _, _, _, rfl, hP⟩

/-- The partition after a call that returned `p`. -/
def Allocated (offset start size : Nat) (live : List (Nat × Layout)) (other : List Extent) (l : Layout)
    (r : Option (Nat × LockedSlabHeap)) : Prop :=
  ∃ p h' heap' L' held', r = some (p, h') ∧
    Partition offset start size h' (if p = 0 then live else (p, l) :: live) other heap' L' held'

theorem allocLoop_partition {l : Layout} (hl : l.Valid) (hc : classFor l ∈ classes) (hfit : start + size ≤ 2 ^ 64)
    (hoff : pageSize ∣ offset) : ∀ (fuel : Nat) {h : LockedSlabHeap} {heap : SlabHeap} {L : SlabClass → List Nat}
    {held : List Extent}, Partition offset start size h live other heap L held →
      Allocated offset start size live other l (LockedSlabHeap.allocLoop offset (classFor l) fuel h)
  | 0, _, _, _, _, hP => ⟨_, _, _, _, _, rfl, hP⟩
  | fuel + 1, h, heap, L, held, hP => by
    obtain ⟨head, hs, hchain⟩ := hP.slab _ hc
    rw [LockedSlabHeap.allocLoop]
    simp only [hP.heap_eq, hs, Option.bind_some, Slab.allocate, FreeList.pop]
    cases hL : L (classFor l) with
    | nil =>
      -- the class is dry: refill it and try again
      rw [hL] at hchain
      have h0 : head = 0 := hchain
      obtain ⟨grown, h', heap', L', held', hgrow, hP'⟩ := growFromFrames_partition hP hfit hoff hc
      simp only [h0, if_true, Option.map_none, hgrow, Option.bind_eq_bind, Option.bind_some]
      cases grown with
      | true => exact allocLoop_partition hl hc hfit hoff fuel hP'
      | false => exact ⟨_, _, _, _, _, rfl, hP'⟩
    | cons a rest =>
      obtain ⟨rfl, hne, hP'⟩ := pop_partition hP hl hc hs hL
      simp only [hne, if_false, Option.map_some]
      exact ⟨_, _, _, _, _, rfl, by rw [if_neg hne]; exact hP'⟩

/-- The frames of an extent cover the size and the alignment of its layout. -/
theorem largeExtentFrames_covers {l : Layout} (hl : l.Valid) {n : Nat} (h : largeExtentFrames l = some n) :
    l.size ≤ n * pageSize ∧ l.align ≤ n * pageSize := by
  simp only [largeExtentFrames, checkedNextMultipleOf, Option.map_eq_some_iff, Option.ite_none_right_eq_some,
    Option.some.injEq] at h
  obtain ⟨bytes, ⟨-, hbytes⟩, rfl⟩ := h
  have hps : pageSize = 4096 := rfl
  have hsize := hl.size
  obtain ⟨k, hk⟩ := hl.align
  constructor
  · calc l.size ≤ bytes := by rw [← hbytes, hps]; omega
      _ = bytes / pageSize * pageSize := by rw [← hbytes, Nat.mul_div_cancel _ (by decide)]
      _ ≤ _ := Nat.mul_le_mul_right _ (Nat.le_max_left ..)
  · have halign : l.align ≤ max l.align pageSize / pageSize * pageSize := by
      rcases Nat.le_total l.align pageSize with hle | hle
      · rw [Nat.max_eq_right hle, Nat.div_self (by decide), Nat.one_mul]
        exact hle
      · have hdvd : pageSize ∣ l.align := two_pow_dvd ⟨12, rfl⟩ ⟨k, hk⟩ hle
        rw [Nat.max_eq_left hle, Nat.div_mul_cancel hdvd]
    exact Nat.le_trans halign (Nat.mul_le_mul_right _ (Nat.le_max_right ..))

theorem livePiece_large {x : Nat × Layout} {e : Extent} (hbig : classFor x.2 = .large)
    (hn : largeExtentFrames x.2 = some e.count) : livePiece x = (x.1, e.size * pageSize) := by
  rw [livePiece, if_pos hbig, hn]
  rfl

/-- The bytes of a live allocation lie in its piece. -/
theorem livePiece_covers {x : Nat × Layout} (hl : x.2.Valid)
    (hlarge : classFor x.2 = .large → ∃ e ∈ held, x.1 = e.phys + offset ∧ largeExtentFrames x.2 = some e.count)
    (hI : Inv h.frames (held ++ other)) : (livePiece x).1 = x.1 ∧ x.2.size ≤ (livePiece x).2 := by
  by_cases hbig : classFor x.2 = .large
  · obtain ⟨e, he, -, hn⟩ := hlarge hbig
    rw [livePiece_large hbig hn]
    refine ⟨rfl, Nat.le_trans (largeExtentFrames_covers hl hn).1 (Nat.mul_le_mul_right _ ?_)⟩
    obtain ⟨k, -, -, hle⟩ := checkedNextPowerOfTwo_spec (hI.placed e (List.mem_append_left _ he)).size_eq
    exact hle
  · rw [livePiece, if_neg hbig]
    exact ⟨rfl, (classFor_fits hbig).1⟩

/-- **A large allocation** is an extent of its own. -/
theorem allocLarge_partition (hP : Partition offset start size h live other heap L held) {l : Layout} (hl : l.Valid)
    (hbig : classFor l = .large) : Allocated offset start size live other l (h.allocLarge offset l) := by
  unfold LockedSlabHeap.allocLarge
  by_cases hg : h.growth = true
  swap
  · rw [if_neg hg]
    exact ⟨_, _, _, _, _, rfl, hP⟩
  rw [if_pos hg]
  cases hn : largeExtentFrames l with
  | none => exact ⟨_, _, _, _, _, rfl, hP⟩
  | some n =>
    rcases allocFrames_inv hP.frames n with ⟨phys, a, ha, hI⟩ | ha
    swap
    · simp only [ha, Option.bind_eq_bind, Option.bind_some]
      exact ⟨_, _, _, _, _, rfl, hP⟩
    have hm := mapped_of_ranges (allocFrames_ranges ha) hP.mapped
    have hva := toKa_eq hI hm (List.mem_cons_self ..)
    simp only at hva
    simp only [ha, Option.bind_eq_bind, Option.bind_some, hva]
    have hheld := hold_partition hP hI hm
    refine ⟨_, _, heap, L, ⟨phys, n⟩ :: held, rfl, ?_⟩
    by_cases h0 : phys + offset = 0
    · rw [if_pos h0]
      exact hheld
    rw [if_neg h0]
    have hlp : livePiece (phys + offset, l) = vaOf offset ⟨phys, n⟩ := livePiece_large (e := ⟨phys, n⟩) hbig hn
    have hpos := (hI.placed _ (List.mem_cons_self ..)).size_pos
    obtain ⟨hpieces, hhome⟩ := add_pieces hP [livePiece (phys + offset, l)] hI hm
      (by
        intro x hx
        obtain rfl := List.mem_singleton.1 hx
        rw [hlp]
        exact ⟨Nat.mul_pos hpos (by decide), Nat.le_refl _, Nat.le_refl _⟩)
      (List.pairwise_singleton ..)
    have hperm : ([livePiece (phys + offset, l)] ++ (freePieces L ++ live.map livePiece)).Perm
        (freePieces L ++ ((phys + offset, l) :: live).map livePiece) := by
      show (livePiece (phys + offset, l) :: (freePieces L ++ live.map livePiece)).Perm _
      exact List.perm_middle.symm
    exact { hheld with
      pieces := (hperm.pairwise_iff Piece.Apart.symm).1 hpieces
      home := fun x hx => hhome x (hperm.mem_iff.2 hx)
      live_ok := by
        intro x hx
        rcases List.mem_cons.1 hx with rfl | hx
        · exact ⟨hl, h0, fun hsmall => absurd hbig hsmall, fun _ => ⟨_, List.mem_cons_self .., rfl, hn⟩⟩
        · exact hheld.live_ok x hx }

/-- **`alloc` keeps the partition.** -/
theorem alloc_partition (hP : Partition offset start size h live other heap L held) (hfit : start + size ≤ 2 ^ 64)
    (hoff : pageSize ∣ offset) {l : Layout} (hl : l.Valid) :
    Allocated offset start size live other l (h.alloc offset l) := by
  unfold LockedSlabHeap.alloc
  by_cases hbig : classFor l = .large
  · rw [if_pos hbig]
    exact allocLarge_partition hP hl hbig
  · rw [if_neg hbig]
    exact allocLoop_partition hl (mem_classes.2 hbig) hfit hoff _ hP

/-- A live extent goes back to the frame allocator. -/
theorem free_partition (hP : Partition offset start size h live other heap L held) {x : Nat × Layout} (hx : x ∈ live)
    (hbig : classFor x.2 = .large) {e : Extent} (he : e ∈ held) (hva : x.1 = e.phys + offset)
    (hn : largeExtentFrames x.2 = some e.count) {a : FrameAllocator} (hI : Inv a ((held ++ other).erase e))
    (hm : ∀ r ∈ a.regions, Mapped offset start size r) :
    Partition offset start size { h with frames := a } (live.erase x) other heap L (held.erase e) := by
  rw [List.erase_append_left _ he] at hI
  have hlp : livePiece x = vaOf offset e := by rw [livePiece_large hbig hn, hva]; rfl
  have hlive : (live.map livePiece).Perm (livePiece x :: (live.erase x).map livePiece) :=
    (List.perm_cons_erase hx).map livePiece
  have hperm : (freePieces L ++ live.map livePiece).Perm
      (vaOf offset e :: (freePieces L ++ (live.erase x).map livePiece)) := by
    rw [hlp] at hlive
    exact (hlive.append_left _).trans List.perm_middle
  have hpw := (hperm.pairwise_iff Piece.Apart.symm).1 hP.pieces
  rw [List.pairwise_cons] at hpw
  -- no other piece lies in this extent
  have hother : ∀ y ∈ freePieces L ++ (live.erase x).map livePiece, ∀ f ∈ held, y.Within (vaOf offset f) →
      f ∈ held.erase e := by
    intro y hy f hf hin
    refine (List.mem_erase_of_ne ?_).2 hf
    rintro rfl
    have hap := hpw.1 y hy
    have hpos := (hP.home y (hperm.mem_iff.2 (List.mem_cons_of_mem _ hy))).1
    unfold Piece.Apart Piece.Within at *
    omega
  refine { hP with frames := hI, mapped := hm, pieces := hpw.2, home := ?_, live_ok := ?_ }
  · intro y hy
    obtain ⟨hpos, hin | ⟨f, hf, hin⟩⟩ := hP.home y (hperm.mem_iff.2 (List.mem_cons_of_mem _ hy))
    · exact ⟨hpos, .inl hin⟩
    · exact ⟨hpos, .inr ⟨f, hother y hy f hf hin, hin⟩⟩
  · intro y hy
    obtain ⟨h₁, h₂, h₃, h₄⟩ := hP.live_ok y (List.mem_of_mem_erase hy)
    refine ⟨h₁, h₂, h₃, fun hbig' => ?_⟩
    obtain ⟨f, hf, hva', hn'⟩ := h₄ hbig'
    refine ⟨f, hother (livePiece y) (List.mem_append_right _ (List.mem_map_of_mem hy)) f hf ?_, hva', hn'⟩
    rw [livePiece_large hbig' hn', hva']
    exact ⟨Nat.le_refl _, Nat.le_refl _⟩

/-- **`dealloc` keeps the partition.** -/
theorem dealloc_partition (hP : Partition offset start size h live other heap L held) (hfit : start + size ≤ 2 ^ 64)
    {x : Nat × Layout} (hx : x ∈ live) :
    ∃ h' heap' L' held', h.dealloc offset x.1 x.2 = some h' ∧
      Partition offset start size h' (live.erase x) other heap' L' held' := by
  obtain ⟨-, hne, -, hlarge⟩ := hP.live_ok x hx
  unfold LockedSlabHeap.dealloc
  rw [if_neg hne]
  by_cases hbig : classFor x.2 = .large
  · obtain ⟨e, he, hva, hn⟩ := hlarge hbig
    have hmem : e ∈ held ++ other := List.mem_append_left _ he
    have hback : fromKa offset x.1 = e.phys := by
      have h₁ := (va_mapped hP.frames hP.mapped hmem).1
      have h₂ := Nat.mul_pos (hP.frames.placed e hmem).size_pos (show 0 < pageSize by decide)
      rw [fromKa, hva, show e.phys + offset + 2 ^ 64 - offset = e.phys + 2 ^ 64 by omega, Nat.add_mod_right]
      exact Nat.mod_eq_of_lt (by omega)
    obtain ⟨a, ha, hI⟩ := freeFramesAt_inv hP.frames hmem
    have hm := mapped_of_ranges (freeFramesAt_ranges ha) hP.mapped
    rw [if_pos hbig]
    simp only [hn, hback, ha, Option.bind_eq_bind, Option.bind_some]
    exact ⟨_, _, _, _, rfl, free_partition hP hx hbig he hva hn hI hm⟩
  · have hc := mem_classes.2 hbig
    obtain ⟨head, hs, -⟩ := hP.slab _ hc
    rw [if_neg hbig]
    simp only [hP.heap_eq, hs, Slab.deallocate, FreeList.push]
    exact ⟨_, _, _, _, rfl, push_partition hP hfit hx hc hs⟩

/-- Clients write to their own allocations. -/
theorem write_partition (hP : Partition offset start size h live other heap L held) {mem : Bytes}
    (hw : ∀ j, (∀ x ∈ live, j < x.1 ∨ x.1 + x.2.size ≤ j) → mem j = h.mem j) :
    Partition offset start size { h with mem := mem } live other heap L held := by
  refine { hP with slab := fun c hc => ?_ }
  obtain ⟨head, hs, hchain⟩ := hP.slab c hc
  have hbs := (blockSize_pos hc).1
  refine ⟨head, hs, hchain.congr fun a ha j h₁ h₂ => hw j fun x hx => ?_⟩
  have hap := hP.free_apart_live (mem_freePieces.2 ⟨c, hc, a, ha, rfl⟩) (List.mem_map_of_mem hx)
  have hsize := livePiece_covers (hP.live_ok x hx).1 (hP.live_ok x hx).2.2.2 hP.frames
  unfold Piece.Apart at hap
  simp only at hap
  rcases hap with h | h
  · exact .inl (by omega)
  · exact .inr (by omega)

end Steps

/-! ## The bootstrap region -/

section Bootstrap

/-- The classes in `done` have their blocks between `lo` and `cur`. -/
structure Booted (lo cur : Nat) (done : List SlabClass) (mem : Bytes) (heap : SlabHeap) (L : SlabClass → List Nat) : Prop where
  slab : ∀ c ∈ done, ∃ head, heap.slab c = some ⟨blockSize c, head⟩ ∧ Chain mem head (L c)
  pieces : (done.flatMap fun c => (L c).map fun a => (a, blockSize c)).Pairwise Piece.Apart
  inside : ∀ c ∈ done, ∀ a ∈ L c, lo ≤ a ∧ a + blockSize c ≤ cur
  aligned : ∀ c ∈ done, ∀ a ∈ L c, blockSize c ∣ a

/-- One more slab in a slot of its own. -/
theorem Booted.step {lo cur slot : Nat} {done : List SlabClass} {mem : Bytes} {heap : SlabHeap} {L : SlabClass → List Nat}
    {c : SlabClass} (hB : Booted lo cur done mem heap L) (hdone : ∀ d ∈ done, d ∈ classes) (hc : c ∈ classes)
    (hfresh : c ∉ done) (hlo : lo ≤ cur) (hcur : pageSize ∣ cur) (hfit : cur + slot ≤ 2 ^ 64) :
    ∃ L', Booted lo (cur + slot) (done ++ [c]) (Slab.new mem cur slot (blockSize c)).1
      (heap.setSlab c (Slab.new mem cur slot (blockSize c)).2) L' := by
  obtain ⟨hbs, hpage⟩ := blockSize_pos hc
  have hcount : slot / blockSize c * blockSize c ≤ slot := Nat.div_mul_le_self ..
  have hnew := new_chain mem (show 8 ≤ blockSize c by omega) (slot / blockSize c)
    (show cur + slot / blockSize c * blockSize c ≤ 2 ^ 64 by omega)
  generalize hl : (if cur = 0 then [] else blocks cur (blockSize c) (slot / blockSize c)) = l at hnew
  have hsub : l.Sublist (blocks cur (blockSize c) (slot / blockSize c)) := by
    rw [← hl]
    split
    · exact List.nil_sublist _
    · exact List.Sublist.refl _
  have hin : ∀ a ∈ l, cur ≤ a ∧ a + blockSize c ≤ cur + slot := fun a ha => by
    have := block_inside (hsub.subset ha)
    omega
  have hframe : ∀ j, j < cur → (Slab.new mem cur slot (blockSize c)).1 j = mem j := fun j hj =>
    pushBlocks_frame _ _ _ fun a ha => .inl (by have := block_inside ha; omega)
  have hne : ∀ d ∈ done, d ≠ c := fun d hd h => hfresh (h ▸ hd)
  have hsame : ∀ d ∈ done, Function.update L c l d = L d := fun d hd => Function.update_of_ne (hne d hd) ..
  refine ⟨Function.update L c l, ?_⟩
  constructor
  · intro d hd
    rcases List.mem_append.1 hd with hd | hd
    · obtain ⟨head, h₁, h₂⟩ := hB.slab d hd
      refine ⟨head, by rw [setSlab_of_ne _ (hne d hd)]; exact h₁, ?_⟩
      rw [hsame d hd]
      have hbd := (blockSize_pos (hdone d hd)).1
      refine h₂.congr fun a ha j h₁ h₂ => hframe j ?_
      have := (hB.inside d hd a ha).2
      omega
    · obtain rfl := List.mem_singleton.1 hd
      exact ⟨_, setSlab_self .., by rw [Function.update_self]; exact hnew⟩
  · have hold : (done.flatMap fun d => (Function.update L c l d).map fun a => (a, blockSize d)) =
        done.flatMap fun d => (L d).map fun a => (a, blockSize d) :=
      List.flatMap_congr fun d hd => by rw [hsame d hd]
    rw [List.flatMap_append, hold, List.flatMap_singleton, Function.update_self, List.pairwise_append]
    refine ⟨hB.pieces, ?_, ?_⟩
    · rw [List.pairwise_map]
      exact ((blocks_pairwise ..).sublist hsub).imp fun h => .inl h
    · intro x hx y hy
      obtain ⟨d, hd, hx⟩ := List.mem_flatMap.1 hx
      obtain ⟨a, ha, rfl⟩ := List.mem_map.1 hx
      obtain ⟨b, hb, rfl⟩ := List.mem_map.1 hy
      exact .inl (Nat.le_trans (hB.inside d hd a ha).2 (hin b hb).1)
  · intro d hd a ha
    rcases List.mem_append.1 hd with hd | hd
    · rw [hsame d hd] at ha
      have := hB.inside d hd a ha
      omega
    · obtain rfl := List.mem_singleton.1 hd
      rw [Function.update_self] at ha
      have := hin a ha
      omega
  · intro d hd a ha
    rcases List.mem_append.1 hd with hd | hd
    · rw [hsame d hd] at ha
      exact hB.aligned d hd a ha
    · obtain rfl := List.mem_singleton.1 hd
      rw [Function.update_self] at ha
      obtain ⟨i, -, rfl⟩ := mem_blocks.1 (hsub.subset ha)
      exact Nat.dvd_add (Nat.dvd_trans hpage hcur) (Nat.dvd_mul_left ..)

theorem newSlabs_booted {lo slot : Nat} (hslot : pageSize ∣ slot) : ∀ (cs done : List SlabClass) {cur : Nat} {mem : Bytes}
    {heap : SlabHeap} {L : SlabClass → List Nat}, Booted lo cur done mem heap L → (∀ d ∈ done ++ cs, d ∈ classes) →
    (done ++ cs).Nodup → lo ≤ cur → pageSize ∣ cur → cur + cs.length * slot ≤ 2 ^ 64 →
      ∃ L', Booted lo (cur + cs.length * slot) (done ++ cs) (newSlabs slot cs cur mem heap).1
        (newSlabs slot cs cur mem heap).2 L'
  | [], done, cur, mem, heap, L, hB, _, _, _, _, _ => by
    simp only [List.append_nil, List.length_nil, Nat.zero_mul, Nat.add_zero, newSlabs]
    exact ⟨L, hB⟩
  | c :: cs, done, cur, mem, heap, L, hB, hcls, hnd, hlo, hcur, hfit => by
    have hlen : (c :: cs).length * slot = cs.length * slot + slot := by rw [List.length_cons, Nat.succ_mul]
    rw [hlen] at hfit
    have hfresh : c ∉ done := fun h => (List.nodup_append.1 hnd).2.2 c h c (List.mem_cons_self ..) rfl
    obtain ⟨L₁, hB₁⟩ := hB.step (fun d hd => hcls d (List.mem_append_left _ hd))
      (hcls c (List.mem_append_right _ (List.mem_cons_self ..))) hfresh hlo hcur (show cur + slot ≤ 2 ^ 64 by omega)
    have happ : done ++ c :: cs = (done ++ [c]) ++ cs := by simp
    rw [happ] at hcls hnd
    obtain ⟨L₂, hB₂⟩ := newSlabs_booted hslot cs (done ++ [c]) hB₁ hcls hnd (by omega) (Nat.dvd_add hcur hslot) (by omega)
    refine ⟨L₂, ?_⟩
    rw [happ, hlen, newSlabs, Nat.add_comm (cs.length * slot), ← Nat.add_assoc]
    exact hB₂

/-- **The bootstrap heap** is a partition with nothing live. -/
theorem init_partition {offset start size : Nat} {h h' : LockedSlabHeap} {other : List Extent} (hI : Inv h.frames other)
    (hm : ∀ r ∈ h.frames.regions, Mapped offset start size r) (hfit : start + size ≤ 2 ^ 64)
    (hinit : h.init start size = some h') :
    ∃ heap L, Partition offset start size h' [] other heap L [] := by
  simp only [LockedSlabHeap.init, SlabHeap.new, Option.map_eq_some_iff, Option.ite_none_right_eq_some,
    Option.some.injEq] at hinit
  obtain ⟨⟨mem, heap⟩, ⟨⟨hstart, -, hsize⟩, hnew⟩, rfl⟩ := hinit
  have hsize' : MIN_HEAP_BYTES ∣ size := Nat.dvd_of_mod_eq_zero hsize
  have hslot : pageSize ∣ size / NUM_SLABS := by
    obtain ⟨k, rfl⟩ := hsize'
    refine ⟨k, ?_⟩
    rw [MIN_HEAP_BYTES, Nat.mul_assoc, Nat.mul_div_cancel_left _ (by decide)]
  have hseven : classes.length * (size / NUM_SLABS) = size := by
    show 7 * (size / 7) = size
    refine Nat.mul_div_cancel' (Nat.dvd_trans ?_ hsize')
    decide
  have hempty : Booted start start [] h.mem ⟨fun _ => none⟩ fun _ => [] :=
    ⟨nofun, .nil, nofun, nofun⟩
  obtain ⟨L, hB⟩ := newSlabs_booted hslot classes [] hempty (fun d hd => hd) (by decide) (Nat.le_refl _)
    (Nat.dvd_of_mod_eq_zero hstart) (by rw [hseven]; exact hfit)
  rw [hnew, hseven] at hB
  refine ⟨heap, L, ?_⟩
  constructor
  · rfl
  · exact hB.slab
  · exact hI
  · exact hm
  · rw [List.map_nil, List.append_nil]
    exact hB.pieces
  · intro x hx
    rw [List.map_nil, List.append_nil] at hx
    obtain ⟨c, hc, a, ha, rfl⟩ := mem_freePieces.1 hx
    have := hB.inside c hc a ha
    have hbs := (blockSize_pos hc).1
    exact ⟨by show 0 < blockSize c; omega, .inl this⟩
  · exact hB.aligned
  · exact nofun

end Bootstrap

/-! ## Runs -/

section Runs

variable {offset start size : Nat}

/-- The runs of a heap on the region from `start`: any sequence of calls, of writes by the clients to their allocations, and
of frames taken and returned by the rest of the kernel. `live` are the allocations, `other` the frames held elsewhere. -/
inductive Run (offset start size : Nat) : LockedSlabHeap → List (Nat × Layout) → List Extent → Prop where
  | init {h h' : LockedSlabHeap} {other : List Extent} (hframes : Reach h.frames other)
      (hmapped : ∀ r ∈ h.frames.regions, Mapped offset start size r) (hinit : h.init start size = some h') :
      Run offset start size h' [] other
  | enable {h : LockedSlabHeap} {live : List (Nat × Layout)} {other : List Extent}
      (hrun : Run offset start size h live other) : Run offset start size h.enableFrameGrowth live other
  | alloc {h h' : LockedSlabHeap} {live : List (Nat × Layout)} {other : List Extent} {l : Layout} {p : Nat}
      (hrun : Run offset start size h live other) (hl : l.Valid) (hcall : h.alloc offset l = some (p, h')) :
      Run offset start size h' (if p = 0 then live else (p, l) :: live) other
  | dealloc {h h' : LockedSlabHeap} {live : List (Nat × Layout)} {other : List Extent} {x : Nat × Layout}
      (hrun : Run offset start size h live other) (hx : x ∈ live) (hcall : h.dealloc offset x.1 x.2 = some h') :
      Run offset start size h' (live.erase x) other
  | write {h : LockedSlabHeap} {live : List (Nat × Layout)} {other : List Extent} {mem : Bytes}
      (hrun : Run offset start size h live other)
      (hw : ∀ j, (∀ x ∈ live, j < x.1 ∨ x.1 + x.2.size ≤ j) → mem j = h.mem j) :
      Run offset start size { h with mem := mem } live other
  | takeFrames {h : LockedSlabHeap} {live : List (Nat × Layout)} {other : List Extent} {count phys : Nat}
      {a : FrameAllocator} (hrun : Run offset start size h live other)
      (hcall : h.frames.allocFrames count = some (some phys, a)) :
      Run offset start size { h with frames := a } live (⟨phys, count⟩ :: other)
  | giveFrames {h : LockedSlabHeap} {live : List (Nat × Layout)} {other : List Extent} {e : Extent} {a : FrameAllocator}
      (hrun : Run offset start size h live other) (he : e ∈ other)
      (hcall : h.frames.freeFramesAt e.phys e.count = some a) :
      Run offset start size { h with frames := a } live (other.erase e)

variable {h : LockedSlabHeap} {live : List (Nat × Layout)} {other : List Extent}

theorem run_partition (hoff : pageSize ∣ offset) (hfit : start + size ≤ 2 ^ 64) (hrun : Run offset start size h live other) :
    ∃ heap L held, Partition offset start size h live other heap L held := by
  induction hrun with
  | init hframes hmapped hinit =>
    obtain ⟨heap, L, hP⟩ := init_partition hframes.inv hmapped hfit hinit
    exact ⟨heap, L, [], hP⟩
  | enable _ ih =>
    obtain ⟨heap, L, held, hP⟩ := ih
    exact ⟨heap, L, held, { hP with }⟩
  | alloc _ hl hcall ih =>
    obtain ⟨heap, L, held, hP⟩ := ih
    obtain ⟨p, h', heap', L', held', hres, hP'⟩ := alloc_partition hP hfit hoff hl
    obtain ⟨rfl, rfl⟩ := Prod.mk.inj (Option.some.inj (hcall.symm.trans hres))
    exact ⟨heap', L', held', hP'⟩
  | dealloc _ hx hcall ih =>
    obtain ⟨heap, L, held, hP⟩ := ih
    obtain ⟨h', heap', L', held', hres, hP'⟩ := dealloc_partition hP hfit hx
    obtain rfl := Option.some.inj (hcall.symm.trans hres)
    exact ⟨heap', L', held', hP'⟩
  | write _ hw ih =>
    obtain ⟨heap, L, held, hP⟩ := ih
    exact ⟨heap, L, held, write_partition hP hw⟩
  | @takeFrames h live other count phys a _ hcall ih =>
    obtain ⟨heap, L, held, hP⟩ := ih
    rcases allocFrames_inv hP.frames count with ⟨phys', a', ha, hI⟩ | ha
    · obtain ⟨h₁, rfl⟩ := Prod.mk.inj (Option.some.inj (hcall.symm.trans ha))
      obtain rfl := Option.some.inj h₁
      exact ⟨heap, L, held, { hP with
        frames := hI.perm List.perm_middle.symm
        mapped := mapped_of_ranges (allocFrames_ranges hcall) hP.mapped }⟩
    · rw [hcall] at ha
      cases ha
  | @giveFrames h live other e a _ he hcall ih =>
    obtain ⟨heap, L, held, hP⟩ := ih
    have hI := hP.frames.perm ((List.perm_cons_erase he).append_left held |>.trans List.perm_middle)
    obtain ⟨a', ha, hI'⟩ := free_cons_inv hI
    obtain rfl := Option.some.inj (hcall.symm.trans ha)
    exact ⟨heap, L, held, { hP with
      frames := hI'
      mapped := mapped_of_ranges (freeFramesAt_ranges hcall) hP.mapped }⟩

/-- A large allocation is an extent of at least its alignment. -/
theorem large_extent {heap : SlabHeap} {L : SlabClass → List Nat} {held : List Extent}
    (hP : Partition offset start size h live other heap L held) {x : Nat × Layout} (hx : x ∈ live)
    (hbig : classFor x.2 = .large) :
    ∃ e ∈ held ++ other, x.1 = e.phys + offset ∧ x.2.align ≤ e.size * pageSize := by
  obtain ⟨hl, -, -, hlarge⟩ := hP.live_ok x hx
  obtain ⟨e, he, hva, hn⟩ := hlarge hbig
  have hmem : e ∈ held ++ other := List.mem_append_left _ he
  obtain ⟨k, -, -, hle⟩ := checkedNextPowerOfTwo_spec (hP.frames.placed e hmem).size_eq
  refine ⟨e, hmem, hva, Nat.le_trans (largeExtentFrames_covers hl hn).2 ?_⟩
  exact Nat.mul_le_mul_right _ hle

/-- A live allocation is aligned as it was asked to be exactly when the offset is: a block of a slab always, since its
alignment divides a page. -/
theorem live_aligned {heap : SlabHeap} {L : SlabClass → List Nat} {held : List Extent}
    (hP : Partition offset start size h live other heap L held) (hoff : pageSize ∣ offset) {x : Nat × Layout}
    (hx : x ∈ live) : x.2.align ∣ x.1 ↔ x.2.align ∣ offset := by
  obtain ⟨hl, -, hsmall, -⟩ := hP.live_ok x hx
  by_cases hbig : classFor x.2 = .large
  · obtain ⟨e, he, hva, hle⟩ := large_extent hP hx hbig
    rw [hva]
    exact (Nat.dvd_add_iff_right (phys_aligned hP.frames he hl.align hle)).symm
  · have hblock := two_pow_dvd hl.align (blockSize_eq_two_pow (mem_classes.2 hbig)) (classFor_fits hbig).2
    have hpage := Nat.dvd_trans hblock (blockSize_pos (mem_classes.2 hbig)).2
    exact iff_of_true (Nat.dvd_trans hblock (hsmall hbig)) (Nat.dvd_trans hpage hoff)

/-- No alignment that was granted exceeds 4 GiB. -/
theorem live_align_dvd {heap : SlabHeap} {L : SlabClass → List Nat} {held : List Extent}
    (hP : Partition offset start size h live other heap L held) {x : Nat × Layout} (hx : x ∈ live) :
    x.2.align ∣ 2 ^ 32 := by
  refine two_pow_dvd (hP.live_ok x hx).1.align ⟨32, rfl⟩ ?_
  by_cases hbig : classFor x.2 = .large
  · obtain ⟨e, he, -, hle⟩ := large_extent hP hx hbig
    exact Nat.le_trans hle (extent_le hP.frames he)
  · have hpage := Nat.le_of_dvd (by decide) (blockSize_pos (mem_classes.2 hbig)).2
    have hps : pageSize = 4096 := rfl
    have := (classFor_fits hbig).2
    omega

/-- **Soundness of the kernel heap.** In every run the live allocations are pairwise disjoint, each is aligned as asked
exactly when the offset of the kernel's addresses is, so all of them at an offset of whole 4 GiB, and no call panics. -/
theorem heap_sound (hoff : pageSize ∣ offset) (hfit : start + size ≤ 2 ^ 64) (hrun : Run offset start size h live other) :
    (∀ x ∈ live, x.1 ≠ 0 ∧ (x.2.align ∣ x.1 ↔ x.2.align ∣ offset)) ∧
    (2 ^ 32 ∣ offset → ∀ x ∈ live, x.2.align ∣ x.1) ∧
    live.Pairwise (fun x y => x.1 + x.2.size ≤ y.1 ∨ y.1 + y.2.size ≤ x.1) ∧
    (∀ l : Layout, l.Valid → (h.alloc offset l).isSome) ∧ ∀ x ∈ live, (h.dealloc offset x.1 x.2).isSome := by
  obtain ⟨heap, L, held, hP⟩ := run_partition hoff hfit hrun
  refine ⟨fun x hx => ⟨(hP.live_ok x hx).2.1, live_aligned hP hoff hx⟩, fun hlarge x hx => ?_, ?_, fun l hl => ?_,
    fun x hx => ?_⟩
  · exact (live_aligned hP hoff hx).2 (Nat.dvd_trans (live_align_dvd hP hx) hlarge)
  · have hpw := (List.pairwise_append.1 hP.pieces).2.1
    rw [List.pairwise_map] at hpw
    refine hpw.imp_of_mem fun {x y} hx hy hap => ?_
    have h₁ := livePiece_covers (hP.live_ok x hx).1 (hP.live_ok x hx).2.2.2 hP.frames
    have h₂ := livePiece_covers (hP.live_ok y hy).1 (hP.live_ok y hy).2.2.2 hP.frames
    unfold Piece.Apart at hap
    omega
  · obtain ⟨p, h', -, -, -, hres, -⟩ := alloc_partition hP hfit hoff hl
    rw [hres]
    rfl
  · obtain ⟨h', -, -, -, hres, -⟩ := dealloc_partition hP hfit hx
    rw [hres]
    rfl

/-- A call of a client. -/
inductive Call where
  | alloc (l : Layout)
  | dealloc (x : Nat × Layout)

/-- The calls in their order, with the allocations that are live after them. -/
def calls (offset : Nat) : List Call → LockedSlabHeap → List (Nat × Layout) →
    Option (LockedSlabHeap × List (Nat × Layout))
  | [], h, live => some (h, live)
  | .alloc l :: cs, h, live => do
    let (p, h) ← h.alloc offset l
    calls offset cs h (if p = 0 then live else (p, l) :: live)
  | .dealloc x :: cs, h, live =>
    if x ∈ live then do
      let h ← h.dealloc offset x.1 x.2
      calls offset cs h (live.erase x)
    else none

theorem calls_run : ∀ (cs : List Call) {h h' : LockedSlabHeap} {live live' : List (Nat × Layout)} {other : List Extent},
    Run offset start size h live other → (∀ l, .alloc l ∈ cs → l.Valid) → calls offset cs h live = some (h', live') →
      Run offset start size h' live' other
  | [], _, _, _, _, _, hrun, _, hcalls => by
    cases hcalls
    exact hrun
  | .alloc l :: cs, _, _, _, _, _, hrun, hv, hcalls => by
    obtain ⟨⟨p, h₁⟩, hcall, hrest⟩ := Option.bind_eq_some_iff.1 hcalls
    exact calls_run cs (hrun.alloc (hv l (List.mem_cons_self ..)) hcall)
      (fun l' hl => hv l' (List.mem_cons_of_mem _ hl)) hrest
  | .dealloc x :: cs, _, _, _, _, _, hrun, hv, hcalls => by
    simp only [calls, Option.ite_none_right_eq_some] at hcalls
    obtain ⟨h₁, hcall, hrest⟩ := Option.bind_eq_some_iff.1 hcalls.2
    exact calls_run cs (hrun.dealloc hcalls.1 hcall) (fun l' hl => hv l' (List.mem_cons_of_mem _ hl)) hrest

end Runs

/-- A heap of seven pages at physical address `0x10000` and sixteen frames from `0x20000`, with growth enabled. -/
def bootHeap (offset : Nat) : Option LockedSlabHeap := do
  let frames ← FrameAllocator.new.addRegion 0x20000 0x30000
  let h ← LockedSlabHeap.init ⟨fun _ => 0, none, frames, false⟩ (0x10000 + offset) 0x7000
  some h.enableFrameGrowth

theorem bootHeap_run {offset : Nat} (hoff : offset ≤ 0xffff800000000000) {h : LockedSlabHeap}
    (hb : bootHeap offset = some h) : Run offset (0x10000 + offset) 0x7000 h [] [] := by
  simp only [bootHeap, Option.bind_eq_bind, Option.bind_eq_some_iff, Option.some.injEq] at hb
  obtain ⟨a, ha, h₁, hinit, rfl⟩ := hb
  have hregions : a.regions = [⟨0x20, 0x10, 0, 0⟩] := by
    cases ha
    rfl
  have hmapped : ∀ r ∈ a.regions, Mapped offset (0x10000 + offset) 0x7000 r := by
    intro r hr
    rw [hregions] at hr
    obtain rfl := List.mem_singleton.1 hr
    simp only [Mapped, show pageSize = 4096 from rfl]
    omega
  exact .enable (.init (.add .new (by decide) (by decide) ha) hmapped hinit)

theorem bootHeap_calls_run {offset : Nat} (hoff : offset ≤ 0xffff800000000000) (cs : List Call)
    (live : List (Nat × Layout)) (hv : ∀ l, .alloc l ∈ cs → l.Valid)
    (hcalls : ((bootHeap offset).bind fun h => calls offset cs h []).map Prod.snd = some live) :
    ∃ h, Run offset (0x10000 + offset) 0x7000 h live [] := by
  obtain ⟨⟨h', live'⟩, hrun, rfl⟩ := Option.map_eq_some_iff.1 hcalls
  obtain ⟨h, hb, hcs⟩ := Option.bind_eq_some_iff.1 hrun
  exact ⟨h', calls_run cs (bootHeap_run hoff hb) hv hcs⟩

/-- The last bootstrap page, a page of a class grown from frames, a large extent and a small block; the second and the third
are returned and taken again. -/
def sampleCalls : List Call :=
  [.alloc ⟨4000, 8⟩, .alloc ⟨4096, 4096⟩, .alloc ⟨5000, 8192⟩, .alloc ⟨10, 8⟩,
    .dealloc (0xffff800000027000, ⟨4096, 4096⟩), .dealloc (0xffff800000028000, ⟨5000, 8192⟩),
    .alloc ⟨3000, 16⟩, .alloc ⟨8192, 8192⟩]

theorem sampleCalls_valid : ∀ l, Call.alloc l ∈ sampleCalls → l.Valid := by
  intro l hl
  simp only [sampleCalls, List.mem_cons, Call.alloc.injEq, reduceCtorEq, false_or, or_false, List.not_mem_nil] at hl
  rcases hl with rfl | rfl | rfl | rfl | rfl | rfl
  · exact ⟨⟨3, rfl⟩, by decide, by decide⟩
  · exact ⟨⟨12, rfl⟩, by decide, by decide⟩
  · exact ⟨⟨13, rfl⟩, by decide, by decide⟩
  · exact ⟨⟨3, rfl⟩, by decide, by decide⟩
  · exact ⟨⟨4, rfl⟩, by decide, by decide⟩
  · exact ⟨⟨13, rfl⟩, by decide, by decide⟩

/-- The calls at the kernel's offset on x86_64. -/
theorem heap_sound_sampleCalls :
    ∃ h, Run 0xffff800000000000 (0x10000 + 0xffff800000000000) 0x7000 h
      [(0xffff800000028000, ⟨8192, 8192⟩), (0xffff800000027000, ⟨3000, 16⟩), (0xffff800000010000, ⟨10, 8⟩),
        (0xffff800000016000, ⟨4000, 8⟩)] [] ∧
      8192 ∣ 0xffff800000028000 ∧ 0xffff800000027000 + 3000 ≤ 0xffff800000028000 := by
  obtain ⟨h, hrun⟩ := bootHeap_calls_run (Nat.le_refl _) sampleCalls
    [(0xffff800000028000, ⟨8192, 8192⟩), (0xffff800000027000, ⟨3000, 16⟩), (0xffff800000010000, ⟨10, 8⟩),
      (0xffff800000016000, ⟨4000, 8⟩)] sampleCalls_valid (by decide +kernel)
  obtain ⟨-, haligned, hapart, -, -⟩ := heap_sound (by decide) (by decide) hrun
  refine ⟨h, hrun, haligned (by decide) _ (List.mem_cons_self ..), ?_⟩
  exact ((List.pairwise_cons.1 hapart).1 _ (List.mem_cons_self ..)).resolve_left (by decide)

/-- A page-aligned offset is not enough for an alignment of two pages. -/
theorem large_block_misaligned :
    pageSize ∣ 0x1000 ∧ (⟨8192, 8192⟩ : Layout).Valid ∧
      ∃ h, Run 0x1000 (0x10000 + 0x1000) 0x7000 h [(0x21000, ⟨8192, 8192⟩)] [] ∧ ¬8192 ∣ 0x21000 := by
  have hv : (⟨8192, 8192⟩ : Layout).Valid := ⟨⟨13, rfl⟩, by decide, by decide⟩
  have hoff : 0x1000 ≤ 0xffff800000000000 := by decide
  obtain ⟨h, hrun⟩ := bootHeap_calls_run hoff [.alloc ⟨8192, 8192⟩] [(0x21000, ⟨8192, 8192⟩)]
    (by intro l hl; cases List.mem_singleton.1 hl; exact hv) (by decide +kernel)
  exact ⟨by decide, hv, h, hrun, by decide⟩

end Koros.Heap
