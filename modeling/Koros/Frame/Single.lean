import Koros.Frame.Sound

/-!
# Single frames

Page tables and user pages are allocated one frame at a time. `Pool a frames other` says that the allocator `a` has
handed out the frames at the addresses of `frames`, one each, beside other live allocations, and that its regions lie
below frame number `bound`.

- `allocFrame_pool`: a frame is handed out, or none is left;
- `freeFrame_pool`: a frame of the pool goes back.
-/
set_option autoImplicit false

namespace Koros.Frame

open Koros.Lib FrameAllocator

/-- The extent of one frame. -/
def single (phys : Nat) : Extent := ⟨phys, 1⟩

@[simp] theorem size_single (phys : Nat) : (single phys).size = 1 := by simp [single, Extent.size, checkedNextPowerOfTwo_one]

structure Pool (bound : Nat) (a : FrameAllocator) (frames : List Nat) (other : List Extent) : Prop where
  inv : Inv a (frames.map single ++ other)
  below : ∀ r ∈ a.regions, r.startPpn + r.frames ≤ bound

section

variable {a a' : FrameAllocator} {bound : Nat} {frames : List Nat} {other : List Extent}

/-! ## What allocation leaves alone -/

/-- The physical ranges of the regions. -/
def ranges (a : FrameAllocator) : List (Nat × Nat) := a.regions.map fun r => (r.startPpn, r.frames)

theorem below_of_ranges (h : ranges a' = ranges a) (hb : ∀ r ∈ a.regions, r.startPpn + r.frames ≤ bound) :
    ∀ r ∈ a'.regions, r.startPpn + r.frames ≤ bound := by
  intro r hr
  have hmem : (r.startPpn, r.frames) ∈ ranges a := by
    rw [← h]
    exact List.mem_map.2 ⟨r, hr, rfl⟩
  obtain ⟨s, hs, he⟩ := List.mem_map.1 hmem
  rw [← (Prod.mk.inj he).1, ← (Prod.mk.inj he).2]
  exact hb s hs

@[simp] theorem ranges_setHint (a : FrameAllocator) (i hint : Nat) : ranges (a.setHint i hint) = ranges a := by
  unfold ranges FrameAllocator.setHint
  induction a.regions generalizing i with
  | nil => simp
  | cons r rs ih => cases i <;> simp [List.modify_succ_cons, ih]

theorem markRun_eq {i o n : Nat} {v : Bool} (h : a.markRun i o n v = some a') :
    ranges a' = ranges a ∧ a'.freeFrames = a.freeFrames := by
  simp only [markRun, Option.bind_eq_bind, Option.bind_eq_some_iff] at h
  obtain ⟨_, _, _, _, he⟩ := h
  cases he
  exact ⟨rfl, rfl⟩

theorem take_eq {i o n phys : Nat} (h : a.take i o n = some (some phys, a')) :
    ranges a' = ranges a ∧ a'.freeFrames + n = a.freeFrames := by
  simp only [FrameAllocator.take, Option.bind_eq_bind, Option.bind_eq_some_iff] at h
  obtain ⟨r, _, a₁, hm, he⟩ := h
  obtain ⟨hr, hf⟩ := markRun_eq hm
  split at he
  · cases he
  · rename_i hlt
    cases he
    refine ⟨(ranges_setHint a₁ i (o + n)).trans hr, ?_⟩
    have hf' : (a₁.setHint i (o + n)).freeFrames = a.freeFrames := hf
    show (a₁.setHint i (o + n)).freeFrames - n + n = _
    omega

theorem allocLoop_eq {frames phys : Nat} : ∀ {n i : Nat}, a.allocLoop frames n i = some (some phys, a') →
    ranges a' = ranges a ∧ a'.freeFrames + frames = a.freeFrames
  | 0, _, h => by cases h
  | n + 1, i, h => by
    simp only [allocLoop, Option.bind_eq_bind, Option.bind_eq_some_iff] at h
    obtain ⟨o, _, h⟩ := h
    cases o with
    | some o => exact take_eq h
    | none => exact allocLoop_eq h

theorem allocLoop_none_eq {frames : Nat} : ∀ {n i : Nat}, a.allocLoop frames n i = some (none, a') → a' = a
  | 0, _, h => by
    cases h
    rfl
  | n + 1, i, h => by
    simp only [allocLoop, Option.bind_eq_bind, Option.bind_eq_some_iff] at h
    obtain ⟨o, _, h⟩ := h
    cases o with
    | some o =>
      simp only [FrameAllocator.take, Option.bind_eq_bind, Option.bind_eq_some_iff] at h
      obtain ⟨_, _, _, _, he⟩ := h
      split at he <;> cases he
    | none => exact allocLoop_none_eq h

theorem allocFrames_ranges {count : Nat} {phys : Option Nat} (h : a.allocFrames count = some (phys, a')) :
    ranges a' = ranges a := by
  unfold allocFrames at h
  split at h
  · cases h
    rfl
  · split at h
    · cases h
      rfl
    · rename_i frames _
      cases phys with
      | some phys => exact (allocLoop_eq h).1
      | none => exact congrArg ranges (allocLoop_none_eq h)

theorem freeFramesAt_ranges {phys count : Nat} (h : a.freeFramesAt phys count = some a') : ranges a' = ranges a := by
  unfold freeFramesAt at h
  split at h
  · cases h
  split at h
  · cases h
  simp only [Option.bind_eq_bind, Option.bind_eq_some_iff] at h
  obtain ⟨frames, -, ⟨i, o⟩, -, used, -, h⟩ := h
  split at h
  · simp only [Option.bind_eq_some_iff] at h
    obtain ⟨a₁, hm, r, -, h⟩ := h
    cases h
    exact (ranges_setHint a₁ i _).trans (markRun_eq hm).1
  · cases h

/-- A search that found nothing passed every region from `i` on, and none has a free frame. -/
theorem allocLoop_none {live : List Extent} (hi : Inv a live) : ∀ {n i : Nat}, i + n = a.regions.length →
    a.allocLoop 1 n i = some (none, a) → ∀ j r, i ≤ j → a.regions[j]? = some r → ∀ o < r.frames,
      a.used (r.bitmapBase + o) = true
  | 0, i, hlen, _, j, r, hij, hr, _, _ => by
    have := (List.getElem?_eq_some_iff.1 hr).1
    omega
  | n + 1, i, hlen, h, j, r, hij, hr, o, ho => by
    obtain ⟨ri, hri⟩ : ∃ ri, a.regions[i]? = some ri := ⟨_, List.getElem?_eq_getElem (by omega)⟩
    rcases searchRegion_spec hi (k := 0) hri with ⟨p, he, -⟩ | ⟨he, hno⟩
    · simp only [Nat.pow_zero] at he
      simp only [allocLoop, he, Option.bind_eq_bind, Option.bind_some] at h
      exfalso
      simp only [FrameAllocator.take, Option.bind_eq_bind, Option.bind_eq_some_iff] at h
      obtain ⟨_, _, _, _, he'⟩ := h
      split at he' <;> cases he'
    · simp only [Nat.pow_zero] at he
      simp only [allocLoop, he, Option.bind_eq_bind, Option.bind_some] at h
      rcases Nat.eq_or_lt_of_le hij with rfl | hlt
      · obtain rfl : ri = r := Option.some.inj (hri.symm.trans hr)
        have hfree := hno o (by simp only [Nat.pow_zero]; omega) (by simp only [Nat.pow_zero]; omega)
        by_contra hu
        apply hfree
        refine ⟨by simp, fun q h₁ h₂ => ?_⟩
        obtain rfl : q = o := by simp only [Nat.pow_zero] at h₂; omega
        simpa using hu
      · exact allocLoop_none hi (by omega) h j r hlt hr o ho

/-- Every tracked frame is used. -/
theorem freeFrames_eq_zero {live : List Extent} (hi : Inv a live)
    (h : ∀ (j : Nat) (r : Region), a.regions[j]? = some r → ∀ o < r.frames, a.used (r.bitmapBase + o) = true) : a.freeFrames = 0 := by
  rw [hi.free_eq]
  by_contra hne
  obtain ⟨j, hj, hu⟩ := exists_clear_of_clearCount_pos (Nat.pos_of_ne_zero hne)
  obtain ⟨r, hr, o, ho, rfl⟩ := hi.packed.exists_region (Nat.zero_le _) hj
  obtain ⟨k, hk⟩ := List.mem_iff_getElem?.1 hr
  rw [h k r hk o ho] at hu
  cases hu

/-! ## The pool -/

/-- The frame at `phys` is marked as allocated in the bitmap. -/
def Marked (a : FrameAllocator) (phys : Nat) : Prop :=
  ∃ r ∈ a.regions, ∃ o < r.frames, r.startPpn + o = phys / pageSize ∧ a.used (r.bitmapBase + o) = true

instance Marked.decidable (a : FrameAllocator) (phys : Nat) : Decidable (Marked a phys) :=
  inferInstanceAs (Decidable (∃ r ∈ a.regions, ∃ o < r.frames, _))

/-- The marked frames are those of the live allocations. -/
theorem Inv.marked_iff {live : List Extent} (h : Inv a live) {f : Nat} :
    Marked a f ↔ ∃ e ∈ live, e.Covers (f / pageSize) := by
  constructor
  · rintro ⟨r, hr, o, hlt, he, hu⟩
    obtain ⟨e, hmem, hc⟩ := (h.set_iff r hr o hlt).1 hu
    exact ⟨e, hmem, he ▸ hc⟩
  · rintro ⟨e, hmem, hc₁, hc₂⟩
    obtain ⟨r, hr, h₁, h₂⟩ := (h.placed e hmem).inside
    refine ⟨r, hr, f / pageSize - r.startPpn, by omega, by omega, ?_⟩
    refine (h.set_iff r hr _ (by omega)).2 ⟨e, hmem, ?_, ?_⟩ <;> omega

theorem covers_single (p : Nat) : (single p).Covers (p / pageSize) := by
  have hppn : (single p).ppn = p / pageSize := rfl
  rw [Extent.Covers, size_single, hppn]
  omega

namespace Pool

theorem placed (h : Pool bound a frames other) {p : Nat} (hp : p ∈ frames) :
    p % pageSize = 0 ∧ p / pageSize < bound := by
  have hpl := h.inv.placed (single p) (List.mem_append_left _ (List.mem_map_of_mem hp))
  obtain ⟨r, hr, h₁, h₂⟩ := hpl.inside
  have hb := h.below r hr
  rw [size_single] at h₂
  exact ⟨hpl.aligned, by have : (single p).ppn = p / pageSize := rfl; omega⟩

/-- The bitmap marks the frames of the pool. -/
theorem marked (h : Pool bound a frames other) {p : Nat} (hp : p ∈ frames) : Marked a p :=
  h.inv.marked_iff.2 ⟨single p, List.mem_append_left _ (List.mem_map_of_mem hp), covers_single p⟩

theorem nodup (h : Pool bound a frames other) : frames.Nodup := by
  have hd := (List.pairwise_append.1 h.inv.disjoint).1
  rw [List.pairwise_map] at hd
  apply hd.imp
  rintro p q hpq rfl
  exact hpq (single p).ppn ⟨⟨Nat.le_refl _, by simp⟩, ⟨Nat.le_refl _, by simp⟩⟩

theorem perm {frames' : List Nat} (h : Pool bound a frames other) (hp : frames.Perm frames') :
    Pool bound a frames' other :=
  ⟨h.inv.perm ((hp.map _).append_right _), h.below⟩

/-- A frame that is nobody's is not marked. -/
theorem not_marked (h : Pool bound a frames other) {f : Nat} (ha : f % pageSize = 0)
    (ho : ∀ e ∈ other, ¬ e.Covers (f / pageSize)) (hf : f ∉ frames) : ¬ Marked a f := by
  intro hm
  obtain ⟨e, hmem, hc⟩ := h.inv.marked_iff.1 hm
  rcases List.mem_append.1 hmem with hmem | hmem
  · obtain ⟨g, hg, rfl⟩ := List.mem_map.1 hmem
    have hga := (h.placed hg).1
    have hppn : (single g).ppn = g / pageSize := rfl
    rw [Extent.Covers, size_single, hppn] at hc
    obtain rfl : g = f := by
      unfold pageSize at *
      omega
    exact hf hg
  · exact ho e hmem hc

/-- The frames of another allocation are marked. -/
theorem marked_of_covers (h : Pool bound a frames other) {f : Nat} {e : Extent} (he : e ∈ other)
    (hc : e.Covers (f / pageSize)) : Marked a f :=
  h.inv.marked_iff.2 ⟨e, List.mem_append_right _ he, hc⟩

/-- A marked frame stays marked in a larger pool. -/
theorem marked_mono {frames' : List Nat} (h : Pool bound a frames other) (h' : Pool bound a' frames' other)
    (hsub : ∀ f ∈ frames, f ∈ frames') {f : Nat} (ha : f % pageSize = 0) (hm : Marked a f) : Marked a' f := by
  by_cases ho : ∃ e ∈ other, e.Covers (f / pageSize)
  · obtain ⟨e, he, hc⟩ := ho
    exact h'.marked_of_covers he hc
  · by_cases hf : f ∈ frames
    · exact h'.marked (hsub f hf)
    · exact absurd hm (h.not_marked ha (fun e he hc => ho ⟨e, he, hc⟩) hf)

end Pool

/-- A physical address that is in no region. -/
def Outside (a : FrameAllocator) (phys : Nat) : Prop :=
  ∀ r ∈ a.regions, ¬ (r.startPpn ≤ phys / pageSize ∧ phys / pageSize < r.startPpn + r.frames)

theorem Outside.of_ranges (h : ranges a' = ranges a) {f : Nat} (ho : Outside a f) : Outside a' f := by
  intro r hr
  have hmem : (r.startPpn, r.frames) ∈ ranges a := by
    rw [← h]
    exact List.mem_map.2 ⟨r, hr, rfl⟩
  obtain ⟨s, hs, he⟩ := List.mem_map.1 hmem
  rw [← (Prod.mk.inj he).1, ← (Prod.mk.inj he).2]
  exact ho s hs

theorem Outside.not_marked {f : Nat} (ho : Outside a f) : ¬ Marked a f := by
  rintro ⟨r, hr, o, hlt, he, -⟩
  exact ho r hr ⟨by omega, by omega⟩

/-- A frame is handed out, or none is left. -/
theorem allocFrame_inv {live : List Extent} (h : Inv a live) :
    (∃ p a', allocFrame a = some (some p, a') ∧ Inv a' (single p :: live) ∧ ranges a' = ranges a ∧
      a'.freeFrames + 1 = a.freeFrames) ∨ (allocFrame a = some (none, a) ∧ a.freeFrames = 0) := by
  have hloop : allocFrame a = a.allocLoop 1 a.regions.length 0 := by
    simp [allocFrame, allocFrames, checkedNextPowerOfTwo_one]
  rcases allocFrames_inv h 1 with ⟨p, a', he, hinv⟩ | he
  · obtain ⟨hr, hf⟩ := allocLoop_eq (hloop.symm.trans he)
    exact Or.inl ⟨p, a', he, hinv, hr, hf⟩
  · refine Or.inr ⟨he, freeFrames_eq_zero h fun j r hr => ?_⟩
    exact allocLoop_none h (Nat.zero_add _) (hloop.symm.trans he) j r (Nat.zero_le _) hr

theorem allocFrame_pool (h : Pool bound a frames other) :
    (∃ p a', allocFrame a = some (some p, a') ∧ Pool bound a' (p :: frames) other ∧ a'.freeFrames + 1 = a.freeFrames) ∨
    (allocFrame a = some (none, a) ∧ a.freeFrames = 0) := by
  rcases allocFrame_inv h.inv with ⟨p, a', he, hinv, hr, hf⟩ | hnone
  · exact Or.inl ⟨p, a', he, ⟨hinv, below_of_ranges hr h.below⟩, hf⟩
  · exact Or.inr hnone

/-- What a call that was made came to. -/
theorem allocFrame_cases (h : Pool bound a frames other) {q : Option Nat} {a' : FrameAllocator} (hal : allocFrame a = some (q, a')) :
    (∃ p, q = some p ∧ Pool bound a' (p :: frames) other ∧ a'.freeFrames + 1 = a.freeFrames) ∨
    q = none ∧ a' = a ∧ a.freeFrames = 0 := by
  rcases allocFrame_pool h with ⟨p, a₁, hal₁, hpool, hfree⟩ | ⟨hal₁, hzero⟩
  · cases hal.symm.trans hal₁
    exact Or.inl ⟨p, rfl, hpool, hfree⟩
  · cases hal.symm.trans hal₁
    exact Or.inr ⟨rfl, rfl, hzero⟩

/-- The frame is not free: it is allocated, or the allocator does not know it. -/
def InUse (a : FrameAllocator) (phys : Nat) : Prop := Marked a phys ∨ Outside a phys

/-- What it is to take the frame at `p`: it was free, and the frames in use stay so. -/
structure Takes (a : FrameAllocator) (live : List Extent) (p : Nat) (a' : FrameAllocator) : Prop where
  inv : Inv a' (single p :: live)
  free : a'.freeFrames + 1 = a.freeFrames
  aligned : p % pageSize = 0
  marked : Marked a' p
  fresh : ¬ InUse a p
  kept : ∀ f, Marked a f → Marked a' f
  inUse : ∀ f, InUse a f → InUse a' f

/-- A frame of the pool goes back. -/
theorem freeFrame_pool {p : Nat} (h : Pool bound a (p :: frames) other) :
    ∃ a', a.freeFramesAt p 1 = some a' ∧ Pool bound a' frames other ∧ a'.freeFrames = a.freeFrames + 1 := by
  obtain ⟨a', he, hinv⟩ := free_cons_inv (e := single p) h.inv
  have heq : ranges a' = ranges a ∧ a'.freeFrames = a.freeFrames + 1 := by
    have he' : a.freeFramesAt p 1 = some a' := he
    have hal : ¬ p % pageSize ≠ 0 := not_not.2 (h.placed (List.mem_cons_self ..)).1
    simp only [freeFramesAt, checkedNextPowerOfTwo_one, Option.bind_eq_bind, Option.bind_some, Nat.one_ne_zero, if_false,
      if_neg hal, Option.bind_eq_some_iff] at he'
    obtain ⟨⟨i, o⟩, -, used, -, he'⟩ := he'
    split at he'
    · simp only [Option.bind_eq_some_iff] at he'
      obtain ⟨a₁, hm, r, -, he'⟩ := he'
      cases he'
      obtain ⟨hr, hf⟩ := markRun_eq hm
      exact ⟨(ranges_setHint a₁ i _).trans hr, congrArg (· + 1) hf⟩
    · cases he'
  exact ⟨a', he, ⟨hinv, below_of_ranges heq.1 h.below⟩, heq.2⟩

/-- A part of a list without duplicates, and what is left of the list. -/
theorem perm_append_filter {l sub : List Nat} (hl : l.Nodup) (hsub : sub.Nodup) (hmem : ∀ f ∈ sub, f ∈ l) :
    (sub ++ l.filter (· ∉ sub)).Perm l := by
  refine (List.perm_ext_iff_of_nodup ?_ hl).2 fun f => ?_
  · refine List.nodup_append.2 ⟨hsub, hl.filter _, ?_⟩
    rintro f hf g hg rfl
    simp [hf] at hg
  · rw [List.mem_append, List.mem_filter]
    constructor
    · rintro (hf | hf)
      · exact hmem f hf
      · exact hf.1
    · intro hf
      by_cases hs : f ∈ sub
      · exact Or.inl hs
      · exact Or.inr ⟨hf, by simpa using hs⟩

end

end Koros.Frame
