import Koros.Frame.Search

/-!
# Soundness of the frame allocator

A run interleaves `addRegion`, `allocFrames` and `freeFramesAt`, keeping the list of live allocations beside the
allocator; a free names one of them (`Reach`). The invariant `Inv` ties the shared bitmap to that list: the regions
are disjoint and packed one after another in the bitmap, the live extents are disjoint aligned runs inside regions,
and a bit is set exactly for their frames. Every operation keeps it (`addRegion_inv`, `take_inv`, `freeFramesAt_inv`),
hence every run does (`Reach.inv`).
-/
set_option autoImplicit false

namespace Koros.Frame

open Koros.Lib FrameAllocator

/-! ## Live extents -/

/-- A live allocation: the address that `allocFrames` returned and the count that was asked for. -/
structure Extent where
  phys : Nat
  count : Nat
deriving DecidableEq, Repr

namespace Extent

def ppn (e : Extent) : Nat := e.phys / pageSize

/-- The frames reserved for the count. -/
def size (e : Extent) : Nat := (checkedNextPowerOfTwo e.count).getD 0

def Covers (e : Extent) (p : Nat) : Prop := e.ppn ≤ p ∧ p < e.ppn + e.size

def Disjoint (e f : Extent) : Prop := ∀ p, ¬ (e.Covers p ∧ f.Covers p)

theorem Disjoint.symm {e f : Extent} (h : Disjoint e f) : Disjoint f e := fun p hp => h p ⟨hp.2, hp.1⟩

/-- The extent lies in one region, at a multiple of its size. -/
structure Placed (rs : List Region) (e : Extent) : Prop where
  aligned : e.phys % pageSize = 0
  count_ne : e.count ≠ 0
  size_eq : checkedNextPowerOfTwo e.count = some e.size
  dvd : e.size ∣ e.ppn
  inside : ∃ r ∈ rs, r.startPpn ≤ e.ppn ∧ e.ppn + e.size ≤ r.startPpn + r.frames

theorem Placed.size_pos {rs : List Region} {e : Extent} (h : Placed rs e) : 0 < e.size := by
  obtain ⟨k, _, hk, _⟩ := checkedNextPowerOfTwo_spec h.size_eq
  rw [hk]
  exact Nat.two_pow_pos k

end Extent

/-! ## The invariant -/

/-- The physical ranges of two regions do not meet. -/
def Region.Apart (r s : Region) : Prop := r.startPpn + r.frames ≤ s.startPpn ∨ s.startPpn + s.frames ≤ r.startPpn

/-- The regions are packed one after another in the bitmap, from bit `b` to bit `t`. -/
def Packed : Nat → List Region → Nat → Prop
  | b, [], t => b = t
  | b, r :: rs, t => r.bitmapBase = b ∧ Packed (b + r.frames) rs t

structure Inv (a : FrameAllocator) (live : List Extent) : Prop where
  packed : Packed 0 a.regions a.trackedFrames
  tracked_le : a.trackedFrames ≤ maxTrackedFrames
  apart : a.regions.Pairwise Region.Apart
  fits : ∀ r ∈ a.regions, Region.Fits r
  hint_le : ∀ r ∈ a.regions, r.nextHint ≤ r.frames
  placed : ∀ e ∈ live, e.Placed a.regions
  disjoint : live.Pairwise Extent.Disjoint
  set_iff : ∀ r ∈ a.regions, ∀ o < r.frames,
    (a.used (r.bitmapBase + o) = true ↔ ∃ e ∈ live, e.Covers (r.startPpn + o))
  clear_above : ∀ j, a.trackedFrames ≤ j → a.used j = false
  free_eq : a.freeFrames = clearCount a.trackedFrames a.used

/-! ## Packed regions -/

theorem Packed.le : ∀ {b t : Nat} {rs : List Region}, Packed b rs t → b ≤ t
  | _, _, [], h => Nat.le_of_eq h
  | _, _, _ :: _, h => Nat.le_trans (Nat.le_add_right _ _) (Packed.le h.2)

theorem Packed.bounds : ∀ {b t : Nat} {rs : List Region}, Packed b rs t → ∀ r ∈ rs,
    b ≤ r.bitmapBase ∧ r.bitmapBase + r.frames ≤ t
  | _, _, [], _, _, hr => absurd hr (by simp)
  | b, t, s :: rs, h, r, hr => by
    have hle := Packed.le h.2
    rcases List.mem_cons.1 hr with rfl | hr
    · have := h.1; omega
    · have := Packed.bounds h.2 r hr; omega

/-- Two regions of the list are the same position or own disjoint bits. -/
theorem Packed.separate : ∀ {b t : Nat} {rs : List Region}, Packed b rs t → ∀ {i j : Nat} {r s : Region},
    rs[i]? = some r → rs[j]? = some s → i ≠ j →
    r.bitmapBase + r.frames ≤ s.bitmapBase ∨ s.bitmapBase + s.frames ≤ r.bitmapBase
  | _, _, [], _, _, _, _, _, hi, _, _ => absurd hi (by simp)
  | _, _, _ :: _, _, 0, 0, _, _, _, _, hne => absurd rfl hne
  | _, _, _ :: rs, h, 0, j + 1, r, s, hi, hj, _ => by
    simp only [List.getElem?_cons_zero, Option.some.injEq] at hi
    have := Packed.bounds h.2 s (List.mem_of_getElem? (by simpa using hj))
    subst hi; left; rw [h.1]; omega
  | _, _, _ :: rs, h, i + 1, 0, r, s, hi, hj, _ => by
    simp only [List.getElem?_cons_zero, Option.some.injEq] at hj
    have := Packed.bounds h.2 r (List.mem_of_getElem? (by simpa using hi))
    subst hj; right; rw [h.1]; omega
  | _, _, _ :: _, h, i + 1, j + 1, _, _, hi, hj, hne =>
    Packed.separate h.2 (by simpa using hi) (by simpa using hj) (by omega)

theorem Packed.append : ∀ {b t : Nat} {rs : List Region} (r : Region), Packed b rs t → r.bitmapBase = t →
    Packed b (rs ++ [r]) (t + r.frames)
  | _, _, [], _, h, hr => by
    have hbt : _ = _ := h
    subst hbt
    exact ⟨hr, rfl⟩
  | _, _, _ :: _, r, h, hr => ⟨h.1, Packed.append r h.2 hr⟩

/-- A region changed in its hint only. -/
def SameRange (r s : Region) : Prop := s.startPpn = r.startPpn ∧ s.frames = r.frames ∧ s.bitmapBase = r.bitmapBase

theorem Packed.of_sameRange : ∀ {b t : Nat} {rs ss : List Region}, List.Forall₂ SameRange rs ss → Packed b rs t →
    Packed b ss t
  | _, _, [], [], _, h => h
  | _, _, _ :: _, _ :: _, .cons hd tl, h => by
    refine ⟨by rw [hd.2.2]; exact h.1, ?_⟩
    rw [hd.2.1]
    exact Packed.of_sameRange tl h.2

theorem pairwise_of_sameRange : ∀ {rs ss : List Region}, List.Forall₂ SameRange rs ss → rs.Pairwise Region.Apart →
    ss.Pairwise Region.Apart
  | [], [], _, _ => .nil
  | r :: rs, s :: ss, .cons hd tl, h => by
    rw [List.pairwise_cons] at h ⊢
    refine ⟨fun s' hs' => ?_, pairwise_of_sameRange tl h.2⟩
    obtain ⟨r', hr', hsame⟩ := exists_of_forall₂ tl s' hs'
    have := h.1 r' hr'
    simpa only [Region.Apart, hd.1, hd.2.1, hsame.1, hsame.2.1] using this
where
  exists_of_forall₂ : ∀ {rs ss : List Region}, List.Forall₂ SameRange rs ss → ∀ s ∈ ss, ∃ r ∈ rs, SameRange r s
  | [], [], _, _, hs => absurd hs (by simp)
  | r :: rs, s :: ss, .cons hd tl, s', hs' => by
    rcases List.mem_cons.1 hs' with rfl | hs'
    · exact ⟨r, by simp, hd⟩
    · obtain ⟨r', hr', h⟩ := exists_of_forall₂ tl s' hs'
      exact ⟨r', by simp [hr'], h⟩

theorem forall₂_modify (hint : Nat) : ∀ (rs : List Region) (i : Nat),
    List.Forall₂ SameRange rs (rs.modify i fun r => { r with nextHint := hint })
  | [], i => by cases i <;> exact .nil
  | r :: rs, 0 => by
    simp only [List.modify_zero_cons]
    exact .cons ⟨rfl, rfl, rfl⟩ (refl rs)
  | r :: rs, i + 1 => by
    simp only [List.modify_succ_cons]
    exact .cons ⟨rfl, rfl, rfl⟩ (forall₂_modify hint rs i)
where
  refl : ∀ rs : List Region, List.Forall₂ SameRange rs rs
  | [] => .nil
  | _ :: rs => .cons ⟨rfl, rfl, rfl⟩ (refl rs)

/-- Two positions of the list hold regions apart from each other. -/
theorem apart_of_ne {rs : List Region} (h : rs.Pairwise Region.Apart) {i j : Nat} {r s : Region} (hi : rs[i]? = some r)
    (hj : rs[j]? = some s) (hne : i ≠ j) : r.Apart s := by
  obtain ⟨hi', rfl⟩ := List.getElem?_eq_some_iff.1 hi
  obtain ⟨hj', rfl⟩ := List.getElem?_eq_some_iff.1 hj
  rcases Nat.lt_or_gt_of_ne hne with hlt | hgt
  · exact List.pairwise_iff_getElem.1 h i j hi' hj' hlt
  · exact (List.pairwise_iff_getElem.1 h j i hj' hi' hgt).symm

/-! ## The operations keep the invariant -/

section Steps

variable {a : FrameAllocator} {live : List Extent}

theorem new_inv : Inv FrameAllocator.new [] where
  packed := rfl
  tracked_le := Nat.zero_le _
  apart := .nil
  fits := fun _ h => absurd h (by simp [FrameAllocator.new])
  hint_le := fun _ h => absurd h (by simp [FrameAllocator.new])
  placed := fun _ h => absurd h (by simp)
  disjoint := .nil
  set_iff := fun _ h => absurd h (by simp [FrameAllocator.new])
  clear_above := fun j _ => by simp [used, testBitAt, FrameAllocator.new]
  free_eq := rfl

/-- The order in which the live extents are listed does not matter. -/
theorem Inv.perm {live' : List Extent} (h : Inv a live) (hp : live.Perm live') : Inv a live' :=
  { h with
    placed := fun e he => h.placed e (hp.mem_iff.2 he)
    disjoint := (hp.pairwise_iff fun h => h.symm).1 h.disjoint
    set_iff := fun r hr o ho => by
      rw [h.set_iff r hr o ho]
      exact exists_congr fun e => and_congr_left fun _ => hp.mem_iff }

/-- Moving a region's hint inside the region. -/
theorem Inv.setHint (h : Inv a live) {i : Nat} (hint : Nat) {r : Region} (hr : a.regions[i]? = some r) (hle : hint ≤ r.frames) :
    Inv (a.setHint i hint) live := by
  have hf := forall₂_modify hint a.regions i
  have hback : ∀ s ∈ (a.setHint i hint).regions, ∃ r ∈ a.regions, SameRange r s := fun s hs =>
    pairwise_of_sameRange.exists_of_forall₂ hf s hs
  have hforth : ∀ s ∈ a.regions, ∃ r ∈ (a.setHint i hint).regions, SameRange s r := fun s hs => by
    obtain ⟨j, hj⟩ := List.mem_iff_getElem?.1 hs
    refine ⟨if i = j then { s with nextHint := hint } else s, List.mem_iff_getElem?.2 ⟨j, ?_⟩, ?_⟩
    · simp [FrameAllocator.setHint, List.getElem?_modify, hj]
    · split <;> exact ⟨rfl, rfl, rfl⟩
  refine { h with
    packed := h.packed.of_sameRange hf
    apart := pairwise_of_sameRange hf h.apart
    fits := fun s hs => ?_
    hint_le := fun s hs => ?_
    placed := fun e he => ?_
    set_iff := fun s hs o ho => ?_ }
  · obtain ⟨r', hr', hs'⟩ := hback s hs
    simpa only [Region.Fits, hs'.1, hs'.2.1] using h.fits r' hr'
  · obtain ⟨j, hj⟩ := List.mem_iff_getElem?.1 hs
    simp only [FrameAllocator.setHint, List.getElem?_modify, Option.map_eq_map, Option.map_eq_some_iff] at hj
    obtain ⟨r', hr', rfl⟩ := hj
    split
    · rename_i hij
      subst hij
      rw [hr] at hr'
      cases hr'
      exact hle
    · exact h.hint_le r' (List.mem_of_getElem? hr')
  · obtain ⟨p₁, p₂, p₃, p₄, r', hr', hin⟩ := h.placed e he
    obtain ⟨s, hs, hsame⟩ := hforth r' hr'
    exact ⟨p₁, p₂, p₃, p₄, s, hs, by rw [hsame.1, hsame.2.1]; exact hin⟩
  · obtain ⟨r', hr', hs'⟩ := hback s hs
    rw [hs'.1, hs'.2.2]
    exact h.set_iff r' hr' o (by rw [← hs'.2.1]; exact ho)

/-- A bit of one region is outside the run of another. -/
theorem Inv.outside (h : Inv a live) {i j o offset n : Nat} {r s : Region} (hr : a.regions[i]? = some r)
    (hs : a.regions[j]? = some s) (hne : i ≠ j) (ho : o < s.frames) (hn : offset + n ≤ r.frames) :
    ¬ (r.bitmapBase + offset ≤ s.bitmapBase + o ∧ s.bitmapBase + o < r.bitmapBase + offset + n) := by
  rcases h.packed.separate hr hs hne with h | h <;> omega

/-- Reserving a free aligned run. -/
theorem take_inv (h : Inv a live) {i offset k count : Nat} {r : Region} (hr : a.regions[i]? = some r)
    (hc : count ≠ 0) (hk : checkedNextPowerOfTwo count = some (2 ^ k)) (hin : offset + 2 ^ k ≤ r.frames)
    (hrun : a.FreeRun r offset (2 ^ k)) :
    ∃ a', a.take i offset (2 ^ k) = some (some ((r.startPpn + offset) * pageSize), a') ∧
      Inv a' (⟨(r.startPpn + offset) * pageSize, count⟩ :: live) := by
  have hmem := List.mem_of_getElem? hr
  have hb := (h.packed.bounds r hmem).2
  have htr := h.tracked_le
  obtain ⟨words, hw, hbits⟩ := markBits_spec true (2 ^ k) (r.bitmapBase + offset) a.allocated (by omega)
  let a₁ : FrameAllocator := { a with allocated := words }
  have hcount : clearCount a.trackedFrames a₁.used + 2 ^ k = clearCount a.trackedFrames a.used :=
    clearCount_set_run (s := r.bitmapBase + offset) (by omega)
      (fun j h₁ h₂ => by
        have := hrun.2 (j - r.bitmapBase) (by omega) (by omega)
        rwa [show r.bitmapBase + (j - r.bitmapBase) = j by omega] at this)
      (fun j h₁ h₂ => by simp only [used, a₁, hbits]; rw [if_pos ⟨h₁, h₂⟩])
      (fun j hj => by simp only [used, a₁, hbits]; rw [if_neg hj])
  have hfree := h.free_eq
  let e : Extent := ⟨(r.startPpn + offset) * pageSize, count⟩
  have hppn : e.ppn = r.startPpn + offset := Nat.mul_div_cancel _ (by decide)
  have hsize : e.size = 2 ^ k := by simp [Extent.size, e, hk]
  have h₁ : Inv { a₁ with freeFrames := a.freeFrames - 2 ^ k } (e :: live) := by
    refine { h with
      placed := fun f hf => ?_, disjoint := ?_, set_iff := fun s hs o ho => ?_, clear_above := fun j hj => ?_,
      free_eq := ?_ }
    · rcases List.mem_cons.1 hf with rfl | hf
      · exact ⟨Nat.mul_mod_left _ _, hc, by rw [hsize]; exact hk, by rw [hsize, hppn]; exact hrun.1, r, hmem,
          by omega, by omega⟩
      · exact h.placed f hf
    · refine List.pairwise_cons.2 ⟨fun f hf p hp => ?_, h.disjoint⟩
      obtain ⟨⟨hp₁, hp₂⟩, hpf⟩ := hp
      have hset := (h.set_iff r hmem (p - r.startPpn) (by omega)).2
        ⟨f, hf, by rw [show r.startPpn + (p - r.startPpn) = p by omega]; exact hpf⟩
      rw [hrun.2 (p - r.startPpn) (by omega) (by omega)] at hset
      exact absurd hset (by simp)
    · obtain ⟨j, hj⟩ := List.mem_iff_getElem?.1 hs
      have hold := h.set_iff s hs o ho
      simp only [used, a₁, hbits] at hold ⊢
      simp only [List.mem_cons, exists_eq_or_imp, Extent.Covers, hppn, hsize]
      by_cases hij : i = j
      · subst hij
        rw [hr] at hj
        cases hj
        by_cases hino : offset ≤ o ∧ o < offset + 2 ^ k
        · rw [if_pos (by omega)]
          exact iff_of_true rfl (.inl (by omega))
        · rw [if_neg (by omega), hold]
          exact ⟨.inr, fun h => h.resolve_left (by omega)⟩
      · rw [if_neg (h.outside hr hj hij ho hin), hold]
        have hap := apart_of_ne h.apart hr hj hij
        unfold Region.Apart at hap
        exact ⟨.inr, fun h => h.resolve_left (by omega)⟩
    · have := h.clear_above j hj
      simp only [used, a₁, hbits] at this ⊢
      have hj' : a.trackedFrames ≤ j := hj
      rw [if_neg (by omega)]
      exact this
    · show a.freeFrames - 2 ^ k = clearCount a.trackedFrames a₁.used
      omega
  refine ⟨_, ?_, h₁.setHint (offset + 2 ^ k) hr hin⟩
  have hge : ¬ a.freeFrames < 2 ^ k := by omega
  simp [FrameAllocator.take, markRun, hr, hw, FrameAllocator.setHint, hge, a₁]

/-- One region's search finds an aligned free run of it, or there is none in either window. -/
theorem searchRegion_spec (h : Inv a live) {i k : Nat} {r : Region} (hr : a.regions[i]? = some r) :
    (∃ o, a.searchRegion i (2 ^ k) = some (some o) ∧ (r.nextHint ≤ o ∨ o + 2 ^ k ≤ r.nextHint) ∧ o + 2 ^ k ≤ r.frames ∧
      a.FreeRun r o (2 ^ k)) ∨
    (a.searchRegion i (2 ^ k) = some none ∧ ∀ o, o + 2 ^ k ≤ r.frames → r.nextHint ≤ o ∨ o + 2 ^ k ≤ r.nextHint →
      ¬ a.FreeRun r o (2 ^ k)) := by
  have hmem := List.mem_of_getElem? hr
  by_cases hbig : 2 ^ k > r.frames
  · exact .inr ⟨by simp [searchRegion, hr, hbig], fun o ho => by omega⟩
  have hb : r.bitmapBase + r.frames ≤ maxTrackedFrames :=
    Nat.le_trans (h.packed.bounds r hmem).2 h.tracked_le
  have hle : 2 ^ k ≤ r.frames := Nat.le_of_not_lt hbig
  have hhint := h.hint_le r hmem
  rcases findFreeRun_spec hr (h.fits r hmem) hb hle (Nat.le_refl _) hhint with ⟨o, he, hge, ho, hrun⟩ | ⟨he, hno⟩
  · exact .inl ⟨o, by simp [searchRegion, hr, hbig, he], Or.inl hge, ho, hrun⟩
  · rcases findFreeRun_spec hr (h.fits r hmem) hb hle hhint (Nat.zero_le r.frames) with ⟨o, he', -, ho, hrun⟩ | ⟨he', hno'⟩
    · exact .inl ⟨o, by simp [searchRegion, hr, hbig, he, he'], Or.inr ho, by omega, hrun⟩
    · refine .inr ⟨by simp [searchRegion, hr, hbig, he, he'], fun o ho hcase => ?_⟩
      rcases hcase with hcase | hcase
      · exact hno o hcase ho
      · exact hno' o (Nat.zero_le _) hcase

/-- What `allocFrames` does from a state with the invariant: it reserves a new extent, or changes nothing. -/
theorem allocLoop_inv (h : Inv a live) {count k : Nat} (hc : count ≠ 0) (hk : checkedNextPowerOfTwo count = some (2 ^ k)) :
    ∀ {n i : Nat}, i + n ≤ a.regions.length →
      (∃ phys a', a.allocLoop (2 ^ k) n i = some (some phys, a') ∧ Inv a' (⟨phys, count⟩ :: live)) ∨
      a.allocLoop (2 ^ k) n i = some (none, a)
  | 0, _, _ => .inr rfl
  | n + 1, i, hi => by
    have hr : a.regions[i]? = some a.regions[i] := List.getElem?_eq_getElem (by omega)
    rcases searchRegion_spec h (k := k) hr with ⟨o, he, -, ho, hrun⟩ | ⟨he, _⟩
    · obtain ⟨a', ht, hinv⟩ := take_inv h hr hc hk ho hrun
      exact .inl ⟨_, a', by simp [allocLoop, he, ht], hinv⟩
    · have hstep : a.allocLoop (2 ^ k) (n + 1) i = a.allocLoop (2 ^ k) n (i + 1) := by simp [allocLoop, he]
      rw [hstep]
      exact allocLoop_inv h hc hk (by omega)

theorem allocFrames_inv (h : Inv a live) (count : Nat) :
    (∃ phys a', a.allocFrames count = some (some phys, a') ∧ Inv a' (⟨phys, count⟩ :: live)) ∨
    a.allocFrames count = some (none, a) := by
  unfold allocFrames
  by_cases hc : count = 0
  · exact .inr (by rw [if_pos hc])
  · rw [if_neg hc]
    cases hf : checkedNextPowerOfTwo count with
    | none => exact .inr rfl
    | some f =>
      obtain ⟨k, _, rfl, _⟩ := checkedNextPowerOfTwo_spec hf
      exact allocLoop_inv h hc hf (by omega)

/-- A registered extent is located in a region that holds it. -/
theorem locate_spec {ppn frames : Nat} (hfits : ∀ r ∈ a.regions, Region.Fits r)
    (hin : ∃ r ∈ a.regions, r.startPpn ≤ ppn ∧ ppn + frames ≤ r.startPpn + r.frames) :
    ∃ i r, a.regions[i]? = some r ∧ r.startPpn ≤ ppn ∧ ppn + frames ≤ r.startPpn + r.frames ∧
      a.locate ppn frames = some (i, ppn - r.startPpn) := by
  have hsome : (a.locate ppn frames).isSome := by
    obtain ⟨r, hr, h₁, h₂⟩ := hin
    obtain ⟨i, hi⟩ := List.mem_iff_getElem?.1 hr
    have hfit := hfits r hr
    unfold Region.Fits at hfit
    unfold locate
    rw [List.findSome?_isSome_iff]
    refine ⟨(r, i), List.mk_mem_zipIdx_iff_getElem?.2 hi, ?_⟩
    have hmax : ppn - r.startPpn + frames ≤ usizeMax := by simp only [usizeMax]; omega
    have hle : ppn - r.startPpn + frames ≤ r.frames := by omega
    simp [Nat.not_lt.2 h₁, hmax, hle]
  obtain ⟨⟨i, offset⟩, hloc⟩ := Option.isSome_iff_exists.1 hsome
  obtain ⟨⟨r, i'⟩, hmem, hf⟩ := List.exists_of_findSome?_eq_some hloc
  have hi := List.mk_mem_zipIdx_iff_getElem?.1 hmem
  dsimp only at hf
  split at hf
  · cases hf
  · split at hf
    · rename_i hlt hle
      cases hf
      exact ⟨_, r, hi, by omega, by omega, hloc⟩
    · cases hf

/-- Freeing a live extent clears exactly its frames. -/
theorem free_cons_inv {e : Extent} (h : Inv a (e :: live)) :
    ∃ a', a.freeFramesAt e.phys e.count = some a' ∧ Inv a' live := by
  obtain ⟨hal, hc, hsz, hdvd, hin⟩ := h.placed e (by simp)
  have hpos := (h.placed e (by simp)).size_pos
  obtain ⟨i, r, hr, hlo, hhi, hloc⟩ := locate_spec h.fits hin
  have hmem := List.mem_of_getElem? hr
  have hb := (h.packed.bounds r hmem).2
  have htr := h.tracked_le
  have hoff : e.ppn - r.startPpn + e.size ≤ r.frames := by omega
  have hset : ∀ o, e.ppn - r.startPpn ≤ o → o < e.ppn - r.startPpn + e.size → a.used (r.bitmapBase + o) = true :=
    fun o h₁ h₂ => (h.set_iff r hmem o (by omega)).2 ⟨e, by simp, by omega, by omega⟩
  have hall := allUsed_eq hr e.size (e.ppn - r.startPpn) (by omega) hset
  obtain ⟨words, hw, hbits⟩ := markBits_spec false e.size (r.bitmapBase + (e.ppn - r.startPpn))
    a.allocated (by omega)
  let a₁ : FrameAllocator := { a with allocated := words }
  have hcount : clearCount a.trackedFrames a.used + e.size = clearCount a.trackedFrames a₁.used :=
    clearCount_set_run (s := r.bitmapBase + (e.ppn - r.startPpn)) (by omega)
      (fun j h₁ h₂ => by simp only [used, a₁, hbits]; rw [if_pos ⟨h₁, h₂⟩])
      (fun j h₁ h₂ => by
        have := hset (j - r.bitmapBase) (by omega) (by omega)
        rwa [show r.bitmapBase + (j - r.bitmapBase) = j by omega] at this)
      (fun j hj => by simp only [used, a₁, hbits]; rw [if_neg hj])
  have hfree := h.free_eq
  have hdisj := List.pairwise_cons.1 h.disjoint
  have h₁ : Inv { a₁ with freeFrames := a.freeFrames + e.size } live := by
    refine { h with
      placed := fun f hf => h.placed f (List.mem_cons_of_mem _ hf), disjoint := hdisj.2,
      set_iff := fun s hs o ho => ?_, clear_above := fun j hj => ?_, free_eq := ?_ }
    · obtain ⟨j, hj⟩ := List.mem_iff_getElem?.1 hs
      have hold := h.set_iff s hs o ho
      simp only [used, a₁, hbits] at hold ⊢
      simp only [List.mem_cons, exists_eq_or_imp] at hold
      by_cases hij : i = j
      · subst hij
        rw [hr] at hj
        cases hj
        by_cases hino : e.ppn - r.startPpn ≤ o ∧ o < e.ppn - r.startPpn + e.size
        · rw [if_pos (by omega)]
          have hcov : e.Covers (r.startPpn + o) := ⟨by omega, by omega⟩
          refine iff_of_false (by simp) fun ⟨f, hf, hcf⟩ => hdisj.1 f hf _ ⟨hcov, hcf⟩
        · rw [if_neg (by omega), hold]
          exact ⟨fun h => h.resolve_left fun hcov => by have := hcov.1; have := hcov.2; omega, .inr⟩
      · rw [if_neg (h.outside hr hj hij ho hoff), hold]
        have hap := apart_of_ne h.apart hr hj hij
        unfold Region.Apart at hap
        exact ⟨fun h => h.resolve_left fun hcov => by have := hcov.1; have := hcov.2; omega, .inr⟩
    · have := h.clear_above j hj
      simp only [used, a₁, hbits] at this ⊢
      split
      · rfl
      · exact this
    · show a.freeFrames + e.size = clearCount a.trackedFrames a₁.used
      omega
  refine ⟨_, ?_, h₁.setHint (min r.nextHint (e.ppn - r.startPpn)) hr (by omega)⟩
  have hloc' : a.locate (e.phys / pageSize) e.size = some (i, e.ppn - r.startPpn) := hloc
  simp [freeFramesAt, hc, hal, hsz, hloc', hall, markRun, hr, hw, FrameAllocator.setHint, a₁]

theorem freeFramesAt_inv (h : Inv a live) {e : Extent} (he : e ∈ live) :
    ∃ a', a.freeFramesAt e.phys e.count = some a' ∧ Inv a' (live.erase e) :=
  free_cons_inv (h.perm (List.perm_cons_erase he))

/-- An accepted region extends the bitmap by clear bits. -/
theorem addRegion_inv (h : Inv a live) {start stop : Nat} {a' : FrameAllocator} (hstop : stop ≤ usizeMax)
    (hadd : a.addRegion start stop = some a') : Inv a' live := by
  have hup : andNot (min (start + (pageSize - 1)) usizeMax) (pageSize - 1) =
      min (start + (pageSize - 1)) usizeMax / pageSize * pageSize :=
    andNot_two_pow (k := 12) (Nat.min_le_right _ _) (by omega)
  have hdown : andNot stop (pageSize - 1) = stop / pageSize * pageSize := andNot_two_pow (k := 12) hstop (by omega)
  unfold addRegion at hadd
  simp only [hup, hdown] at hadd
  split at hadd
  · cases hadd; exact h
  split at hadd
  · cases hadd
  split at hadd
  · cases hadd
  split at hadd
  · cases hadd
  rename_i hlt hcnt htr hall
  cases hadd
  set s := min (start + (pageSize - 1)) usizeMax / pageSize with hs
  set t := stop / pageSize with ht
  have hps : pageSize = 4096 := rfl
  have hst : s < t := by rw [hps] at hlt; omega
  have hdiv : s * pageSize / pageSize = s := Nat.mul_div_cancel _ (by decide)
  have hfr : (t * pageSize - s * pageSize) / pageSize = t - s := by
    rw [← Nat.sub_mul, Nat.mul_div_cancel _ (by decide)]
  simp only [hdiv, hfr, Decidable.not_not] at htr hall ⊢
  have ht52 : t ≤ 2 ^ 52 := by simp only [usizeMax] at hstop; rw [ht, hps]; omega
  refine { h with
    packed := h.packed.append _ rfl, tracked_le := htr, apart := ?_, fits := ?_, hint_le := ?_,
    placed := ?_, set_iff := ?_, clear_above := ?_, free_eq := ?_ }
  · rw [List.pairwise_append]
    refine ⟨h.apart, List.pairwise_singleton _ _, fun r hr s' hs' => ?_⟩
    rw [List.mem_singleton.1 hs']
    have := List.all_eq_true.1 hall r hr
    simp only [Bool.or_eq_true, decide_eq_true_eq] at this
    exact this.symm
  · intro r hr
    rcases List.mem_append.1 hr with hr | hr
    · exact h.fits r hr
    · rw [List.mem_singleton.1 hr]
      show s + (t - s) ≤ 2 ^ 52
      omega
  · intro r hr
    rcases List.mem_append.1 hr with hr | hr
    · exact h.hint_le r hr
    · rw [List.mem_singleton.1 hr]; exact Nat.zero_le _
  · intro e he
    obtain ⟨p₁, p₂, p₃, p₄, r, hr, hin⟩ := h.placed e he
    exact ⟨p₁, p₂, p₃, p₄, r, List.mem_append_left _ hr, hin⟩
  · intro r hr o ho
    rcases List.mem_append.1 hr with hr | hr
    · exact h.set_iff r hr o ho
    · rw [List.mem_singleton.1 hr] at ho ⊢
      have hclear := h.clear_above (a.trackedFrames + o) (by omega)
      have hz : used { a with
          regions := a.regions ++ [⟨s, t - s, a.trackedFrames, 0⟩]
          trackedFrames := a.trackedFrames + (t - s), freeFrames := a.freeFrames + (t - s) }
          (a.trackedFrames + o) = false := hclear
      rw [hz]
      -- a live extent lies in an old region, and the new one is apart from those
      refine iff_of_false (by simp) ?_
      rintro ⟨e, he, hcov⟩
      obtain ⟨_, _, _, _, r', hr', hin⟩ := h.placed e he
      have := List.all_eq_true.1 hall r' hr'
      simp only [Bool.or_eq_true, decide_eq_true_eq] at this
      have h₁ := hcov.1
      have h₂ := hcov.2
      simp only at h₁ h₂ ho
      omega
  · exact fun j hj => h.clear_above j (by have : a.trackedFrames + (t - s) ≤ j := hj; omega)
  · show a.freeFrames + (t - s) = clearCount (a.trackedFrames + (t - s)) a.used
    rw [clearCount_add fun j hj _ => h.clear_above j hj, ← h.free_eq]

end Steps

/-! ## Runs -/

/-- The states of the runs in which every free names a live allocation, with the live allocations. -/
inductive Reach : FrameAllocator → List Extent → Prop
  | new : Reach .new []
  | add {a a' : FrameAllocator} {live : List Extent} {start stop : Nat} (h : Reach a live) (hs : start ≤ usizeMax)
      (ht : stop ≤ usizeMax) (hadd : a.addRegion start stop = some a') : Reach a' live
  | alloc {a a' : FrameAllocator} {live : List Extent} {count phys : Nat} (h : Reach a live)
      (ha : a.allocFrames count = some (some phys, a')) : Reach a' (⟨phys, count⟩ :: live)
  | full {a a' : FrameAllocator} {live : List Extent} {count : Nat} (h : Reach a live)
      (ha : a.allocFrames count = some (none, a')) : Reach a' live
  | free {a a' : FrameAllocator} {live : List Extent} {e : Extent} (h : Reach a live) (he : e ∈ live)
      (hf : a.freeFramesAt e.phys e.count = some a') : Reach a' (live.erase e)

theorem Reach.inv {a : FrameAllocator} {live : List Extent} (h : Reach a live) : Inv a live := by
  induction h with
  | new => exact new_inv
  | add _ _ ht hadd ih => exact addRegion_inv ih ht hadd
  | alloc _ ha ih =>
    rcases allocFrames_inv ih _ with ⟨phys, a', he, hinv⟩ | he
    · rw [ha] at he; cases he; exact hinv
    · rw [ha] at he; cases he
  | full _ ha ih =>
    rcases allocFrames_inv ih _ with ⟨phys, a', he, hinv⟩ | he
    · rw [ha] at he; cases he
    · rw [ha] at he; cases he; exact ih
  | free _ hmem hf ih =>
    obtain ⟨a', he, hinv⟩ := freeFramesAt_inv ih hmem
    rw [hf] at he; cases he; exact hinv

/-- What the allocator promises: disjoint, aligned extents inside single regions, a bitmap and a free counter that
agree with them, and no panic at the next call. -/
structure Sound (a : FrameAllocator) (live : List Extent) : Prop where
  disjoint : live.Pairwise Extent.Disjoint
  inside : ∀ e ∈ live, 0 < e.size ∧
    ∃ r ∈ a.regions, r.startPpn ≤ e.ppn ∧ e.ppn + e.size ≤ r.startPpn + r.frames
  aligned : ∀ e ∈ live, e.phys % pageSize = 0 ∧ e.size ∣ e.ppn
  size_eq : ∀ e ∈ live, checkedNextPowerOfTwo e.count = some e.size
  bitmap : ∀ j, a.used j = true ↔
    ∃ r ∈ a.regions, ∃ o < r.frames, j = r.bitmapBase + o ∧ ∃ e ∈ live, e.Covers (r.startPpn + o)
  available : a.availableFrames = clearCount a.trackedFrames a.used
  alloc_ok : ∀ count, (a.allocFrames count).isSome
  free_ok : ∀ e ∈ live, (a.freeFramesAt e.phys e.count).isSome

/-- Every tracked bit belongs to a region. -/
theorem Packed.exists_region : ∀ {b t j : Nat} {rs : List Region}, Packed b rs t → b ≤ j → j < t →
    ∃ r ∈ rs, ∃ o < r.frames, j = r.bitmapBase + o
  | _, _, _, [], h, hb, ht => by have hbt : _ = _ := h; omega
  | b, t, j, r :: rs, h, hb, ht => by
    by_cases hj : j < b + r.frames
    · exact ⟨r, by simp, j - b, by omega, by rw [h.1]; omega⟩
    · obtain ⟨s, hs, o, ho, he⟩ := Packed.exists_region h.2 (Nat.le_of_not_lt hj) ht
      exact ⟨s, by simp [hs], o, ho, he⟩

theorem Inv.sound {a : FrameAllocator} {live : List Extent} (h : Inv a live) : Sound a live where
  disjoint := h.disjoint
  inside := fun e he => ⟨(h.placed e he).size_pos, (h.placed e he).inside⟩
  aligned := fun e he => ⟨(h.placed e he).aligned, (h.placed e he).dvd⟩
  size_eq := fun e he => (h.placed e he).size_eq
  bitmap := fun j => by
    constructor
    · intro hj
      have hlt : j < a.trackedFrames := by
        by_contra hge
        rw [h.clear_above j (Nat.le_of_not_lt hge)] at hj
        exact absurd hj (by simp)
      obtain ⟨r, hr, o, ho, rfl⟩ := h.packed.exists_region (Nat.zero_le _) hlt
      exact ⟨r, hr, o, ho, rfl, (h.set_iff r hr o ho).1 hj⟩
    · rintro ⟨r, hr, o, ho, rfl, hcov⟩
      exact (h.set_iff r hr o ho).2 hcov
  available := h.free_eq
  alloc_ok := fun count => by
    rcases allocFrames_inv h count with ⟨_, _, he, _⟩ | he <;> simp [he]
  free_ok := fun e he => by
    obtain ⟨_, hf, _⟩ := freeFramesAt_inv h he
    simp [hf]

/-- **Soundness**: after every run of registrations, allocations and frees of live allocations. -/
theorem frameAllocator_sound {a : FrameAllocator} {live : List Extent} (h : Reach a live) : Sound a live := h.inv.sound

/-- A run that registers four frames at ppn 3, allocates two aligned ones and then a third one, and frees the pair. -/
theorem frameAllocator_sound_run :
    ∃ a a', Sound a [⟨0x6000, 1⟩, ⟨0x4000, 2⟩] ∧ a.freeFramesAt 0x4000 2 = some a' ∧ Sound a' [⟨0x6000, 1⟩] := by
  obtain ⟨a₁, h₁⟩ : ∃ a₁, FrameAllocator.new.addRegion 0x2800 0x7000 = some a₁ := ⟨_, rfl⟩
  obtain ⟨a₂, h₂⟩ : ∃ a₂, a₁.allocFrames 2 = some (some 0x4000, a₂) := by cases h₁; exact ⟨_, rfl⟩
  obtain ⟨a₃, h₃⟩ : ∃ a₃, a₂.allocFrames 1 = some (some 0x6000, a₃) := by cases h₁; cases h₂; exact ⟨_, rfl⟩
  have hr₃ : Reach a₃ [⟨0x6000, 1⟩, ⟨0x4000, 2⟩] := .alloc (.alloc (.add .new (by decide) (by decide) h₁) h₂) h₃
  obtain ⟨a₄, h₄, _⟩ := freeFramesAt_inv hr₃.inv (e := ⟨0x4000, 2⟩) (by simp)
  exact ⟨a₃, a₄, frameAllocator_sound hr₃, h₄, frameAllocator_sound (.free hr₃ (by simp) h₄)⟩

end Koros.Frame
