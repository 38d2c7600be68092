import Koros.Frame.Sound
import Koros.Lib.Runs

/-!
# Collecting the boot memory map

`RegionCollector` of `kor/src/regions.rs` keeps the ranges of the memory map sorted while they are added, `clip_region`
cuts the kernel image out of each, and the pieces are registered with the frame allocator.

- `add_good`: a range that meets no region behind its start, or one of them and one before it, keeps the regions
  sorted and apart;
- `register_exact`: of such regions exactly the frames outside the hole are registered, and no two pieces overlap;
- `collector_exact`: so in every run of such ranges.
-/
set_option autoImplicit false

namespace Koros.Regions

open Koros.Frame Koros.Lib

/-! ## The model -/

/-- `MAX_REGIONS` of the collector. -/
def maxCollected : Nat := 32

/-- `Region` of the collector, `[start, stop)`. -/
structure Range where
  start : Nat
  stop : Nat
deriving DecidableEq, Repr

/-- `try_merge`. -/
def tryMerge (regions : List Range) (i : Nat) : List Range :=
  match regions[i]?, regions[i + 1]? with
  | some r, some s =>
    if r.stop ≥ s.start then (regions.set i { r with stop := if s.stop > r.stop then s.stop else r.stop }).eraseIdx (i + 1)
    else regions
  | _, _ => regions

/-- `insert`, with its assertion. -/
def insert (regions : List Range) (i : Nat) (region : Range) : Option (List Range) :=
  if regions.length < maxCollected then some (regions.insertIdx i region) else none

/-- The loop of `add`: where it ends, and whether in a region that starts before the new one and reaches it. -/
def findPlace (new : Range) : List Range → (i : Nat) → Nat × Bool
  | [], i => (i, false)
  | r :: rest, i =>
    if r.start < new.start then if r.stop ≥ new.start then (i, true) else findPlace new rest (i + 1)
    else (i, false)

/-- `add`, with its debug assertions. -/
def add (regions : List Range) (new : Range) : Option (List Range) :=
  if new.start ≥ new.stop then some regions
  else if new.start % pageSize ≠ 0 ∨ new.stop % pageSize ≠ 0 then none
  else
    match findPlace new regions 0 with
    | (i, true) => do
      let r ← regions[i]?
      if new.stop > r.stop then some (tryMerge (regions.set i { r with stop := new.stop }) i) else some regions
    | (i, false) =>
      match if i > 0 then regions[i - 1]? else none with
      | some r =>
        if r.stop = new.start then some (tryMerge (regions.set (i - 1) { r with stop := new.stop }) (i - 1))
        else insert regions i new
      | none => insert regions i new

/-- The pieces that `clip_region` calls `f` with. -/
def clipRegion (start stop holeStart holeStop : Nat) : List (Nat × Nat) :=
  if start ≥ stop then []
  else if holeStart ≥ holeStop ∨ stop ≤ holeStart ∨ start ≥ holeStop then [(start, stop)]
  else
    (if start < holeStart then [(start, holeStart)] else []) ++ if stop > holeStop then [(holeStop, stop)] else []

/-- The pieces of all regions. -/
def pieces (regions : List Range) (holeStart holeStop : Nat) : List (Nat × Nat) :=
  regions.flatMap fun r => clipRegion r.start r.stop holeStart holeStop

/-- `add_region` for each piece. -/
def register (a : FrameAllocator) (ps : List (Nat × Nat)) : Option FrameAllocator :=
  ps.foldlM (fun a p => a.addRegion p.1 p.2) a

/-! ## Sorted regions -/

/-- The regions are not empty, aligned, sorted, and neither overlap nor touch. -/
structure Good (regions : List Range) : Prop where
  sorted : regions.Pairwise fun r s => r.stop < s.start
  valid : ∀ r ∈ regions, r.start < r.stop ∧ r.start % pageSize = 0 ∧ r.stop % pageSize = 0 ∧ r.stop ≤ usizeMax

/-- The addresses in the ranges. -/
def Covers (regions : List Range) (p : Nat) : Prop := ∃ r ∈ regions, r.start ≤ p ∧ p < r.stop

/-- `s` starts inside the new range or where it ends. -/
def Met (new s : Range) : Prop := new.start ≤ s.start ∧ s.start ≤ new.stop

instance (new s : Range) : Decidable (Met new s) := inferInstanceAs (Decidable (_ ∧ _))

/-- The range meets no region that starts at or behind its start; or one such, and one that starts before it. -/
def MergeOk (regions : List Range) (new : Range) : Prop :=
  new.start < new.stop → (∀ s ∈ regions, ¬ Met new s) ∨
    (∃ r ∈ regions, r.start < new.start ∧ new.start ≤ r.stop) ∧ ∀ s ∈ regions, ∀ t ∈ regions, Met new s → Met new t → s = t

instance (regions : List Range) (new : Range) : Decidable (MergeOk regions new) :=
  inferInstanceAs (Decidable (_ → _ ∨ (∃ r ∈ regions, _) ∧ ∀ s ∈ regions, ∀ t ∈ regions, _ → _ → _))

section Add

variable {regions regions' : List Range} {new : Range}

/-- Where the loop ends. -/
theorem findPlace_spec (new : Range) : ∀ (regions : List Range) (i : Nat), ∃ before after, regions = before ++ after ∧
    (findPlace new regions i).1 = i + before.length ∧ (∀ r ∈ before, r.start < new.start ∧ r.stop < new.start) ∧
    ((findPlace new regions i).2 = true ∧ (∃ r rest, after = r :: rest ∧ r.start < new.start ∧ new.start ≤ r.stop) ∨
      (findPlace new regions i).2 = false ∧ ∀ r rest, after = r :: rest → new.start ≤ r.start) := by
  intro regions
  induction regions with
  | nil => exact fun i => ⟨[], [], rfl, rfl, nofun, Or.inr ⟨rfl, nofun⟩⟩
  | cons r rest ih =>
    intro i
    by_cases hlt : r.start < new.start
    · by_cases hge : r.stop ≥ new.start
      · have he : findPlace new (r :: rest) i = (i, true) := by rw [findPlace, if_pos hlt, if_pos hge]
        rw [he]
        exact ⟨[], r :: rest, rfl, rfl, nofun, Or.inl ⟨rfl, r, rest, rfl, hlt, hge⟩⟩
      · have he : findPlace new (r :: rest) i = findPlace new rest (i + 1) := by
          rw [findPlace, if_pos hlt, if_neg hge]
        obtain ⟨before, after, hsplit, hi, hbefore, hcase⟩ := ih (i + 1)
        rw [he]
        refine ⟨r :: before, after, by rw [hsplit]; rfl, ?_, ?_, hcase⟩
        · rw [hi, List.length_cons]
          omega
        · intro s hs
          rcases List.mem_cons.1 hs with rfl | hs
          · exact ⟨hlt, Nat.lt_of_not_le hge⟩
          · exact hbefore s hs
    · have he : findPlace new (r :: rest) i = (i, false) := by rw [findPlace, if_neg hlt]
      rw [he]
      refine ⟨[], r :: rest, rfl, rfl, nofun, Or.inr ⟨rfl, fun s tail hs => ?_⟩⟩
      cases hs
      exact Nat.le_of_not_lt hlt

theorem tryMerge_nil (before : List Range) (r : Range) : tryMerge (before ++ [r]) before.length = before ++ [r] := by
  simp [tryMerge]

theorem tryMerge_apart (before : List Range) {r s : Range} (tail : List Range) (h : r.stop < s.start) :
    tryMerge (before ++ r :: s :: tail) before.length = before ++ r :: s :: tail := by
  simp [tryMerge, Nat.not_le.2 h]

theorem tryMerge_met (before : List Range) {r s : Range} (tail : List Range) (h : s.start ≤ r.stop) :
    tryMerge (before ++ r :: s :: tail) before.length =
      before ++ { r with stop := if s.stop > r.stop then s.stop else r.stop } :: tail := by
  simp [tryMerge, h, List.eraseIdx_append_of_length_le]

theorem insertIdx_split (before after : List Range) :
    (before ++ after).insertIdx before.length new = before ++ new :: after := by
  induction before with
  | nil => rfl
  | cons r before ih => simp [List.insertIdx_succ_cons, ih]

/-- Sorted regions taken apart. -/
theorem good_split {before after : List Range} (h : Good (before ++ after)) :
    before.Pairwise (fun r s => r.stop < s.start) ∧ after.Pairwise (fun r s => r.stop < s.start) ∧
      ∀ r ∈ before, ∀ s ∈ after, r.stop < s.start :=
  List.pairwise_append.1 h.sorted

/-- A region takes the place of some that were next to each other. -/
theorem good_replace {before tail : List Range} (middle : List Range) {r : Range} (h : Good (before ++ (middle ++ tail)))
    (hr : r.start < r.stop ∧ r.start % pageSize = 0 ∧ r.stop % pageSize = 0 ∧ r.stop ≤ usizeMax)
    (hbefore : ∀ s ∈ before, s.stop < r.start) (htail : ∀ s ∈ tail, r.stop < s.start) : Good (before ++ r :: tail) := by
  obtain ⟨h₁, h₂, h₃⟩ := good_split h
  obtain ⟨-, h₄, -⟩ := List.pairwise_append.1 h₂
  constructor
  · refine List.pairwise_append.2 ⟨h₁, List.pairwise_cons.2 ⟨htail, h₄⟩, fun s hs t ht => ?_⟩
    rcases List.mem_cons.1 ht with rfl | ht
    · exact hbefore s hs
    · exact h₃ s hs t (List.mem_append_right _ ht)
  · intro s hs
    rcases List.mem_append.1 hs with hs | hs
    · exact h.valid s (List.mem_append_left _ hs)
    · rcases List.mem_cons.1 hs with rfl | hs
      · exact hr
      · exact h.valid s (List.mem_append_right _ (List.mem_append_right _ hs))

/-- What the addresses are then. -/
theorem covers_replace {before tail : List Range} (middle : List Range) {r : Range} {q : Nat → Prop}
    (hr : ∀ p, (r.start ≤ p ∧ p < r.stop) ↔ Covers middle p ∨ q p) (p : Nat) :
    Covers (before ++ r :: tail) p ↔ Covers (before ++ (middle ++ tail)) p ∨ q p := by
  have happ : ∀ (l l' : List Range), Covers (l ++ l') p ↔ Covers l p ∨ Covers l' p := fun l l' => by
    unfold Covers
    simp only [List.mem_append, or_and_right, exists_or]
  have hcons : Covers (r :: tail) p ↔ (Covers middle p ∨ q p) ∨ Covers tail p := by
    unfold Covers
    rw [List.exists_mem_cons_iff, hr p]
    rfl
  rw [happ, happ, happ, hcons]
  tauto

/-- What a region may be. -/
theorem Good.mem {r : Range} (h : Good regions) (hr : r ∈ regions) :
    r.start < r.stop ∧ r.start % pageSize = 0 ∧ r.stop % pageSize = 0 ∧ r.stop ≤ usizeMax :=
  h.valid r hr

/-- The new range is added where no region reaches it. -/
theorem insert_good {before after : List Range} (h : Good (before ++ after)) (hlt : new.start < new.stop)
    (ha : new.start % pageSize = 0 ∧ new.stop % pageSize = 0 ∧ new.stop ≤ usizeMax)
    (hbefore : ∀ r ∈ before, r.stop < new.start) (hafter : ∀ r ∈ after, new.stop < r.start) :
    Good (before ++ new :: after) ∧
      ∀ p, Covers (before ++ new :: after) p ↔ Covers (before ++ after) p ∨ new.start ≤ p ∧ p < new.stop := by
  refine ⟨good_replace [] h ⟨hlt, ha⟩ hbefore hafter, covers_replace [] fun p => ?_⟩
  simp [Covers]

/-- The region that the new range extends, with the one behind it that the new range meets. -/
theorem extend_good {before tail : List Range} {r s : Range} (h : Good (before ++ r :: s :: tail))
    (ha : new.stop % pageSize = 0 ∧ new.stop ≤ usizeMax) (hr : r.start < new.start ∧ new.start ≤ r.stop)
    (hstop : r.stop < new.stop) (hs : s.start ≤ new.stop) (htail : ∀ t ∈ tail, new.stop < t.start) :
    Good (before ++ ⟨r.start, max new.stop s.stop⟩ :: tail) ∧
      ∀ p, Covers (before ++ ⟨r.start, max new.stop s.stop⟩ :: tail) p ↔
        Covers (before ++ r :: s :: tail) p ∨ new.start ≤ p ∧ p < new.stop := by
  have hvr := h.mem (r := r) (by simp)
  have hvs := h.mem (r := s) (by simp)
  obtain ⟨-, hsorted, hcross⟩ := good_split h
  have hrs : r.stop < s.start := (List.pairwise_cons.1 hsorted).1 s (by simp)
  have hst : ∀ t ∈ tail, s.stop < t.start := (List.pairwise_cons.1 (List.pairwise_cons.1 hsorted).2).1
  refine ⟨good_replace [r, s] h ⟨?_, hvr.2.1, ?_, ?_⟩ (fun t ht => hcross t ht r (by simp)) fun t ht => ?_,
    covers_replace [r, s] fun p => ?_⟩
  · exact Nat.lt_of_lt_of_le (Nat.lt_trans hvr.1 hstop) (Nat.le_max_left _ _)
  · rcases Nat.le_total new.stop s.stop with hle | hle
    · rw [Nat.max_eq_right hle]
      exact hvs.2.2.1
    · rw [Nat.max_eq_left hle]
      exact ha.1
  · exact Nat.max_le.2 ⟨ha.2, hvs.2.2.2⟩
  · exact Nat.max_lt.2 ⟨htail t ht, hst t ht⟩
  · simp only [Covers, List.exists_mem_cons_iff, List.not_mem_nil, false_and, exists_false, or_false]
    omega

/-- The region that the new range extends, where it meets none behind. -/
theorem extend_alone {before tail : List Range} {r : Range} (h : Good (before ++ r :: tail))
    (ha : new.stop % pageSize = 0 ∧ new.stop ≤ usizeMax) (hr : r.start < new.start ∧ new.start ≤ r.stop)
    (hstop : r.stop < new.stop) (htail : ∀ t ∈ tail, new.stop < t.start) :
    Good (before ++ ⟨r.start, new.stop⟩ :: tail) ∧
      ∀ p, Covers (before ++ ⟨r.start, new.stop⟩ :: tail) p ↔
        Covers (before ++ r :: tail) p ∨ new.start ≤ p ∧ p < new.stop := by
  have hvr := h.mem (r := r) (by simp)
  obtain ⟨-, -, hcross⟩ := good_split h
  refine ⟨good_replace [r] h ⟨Nat.lt_trans hvr.1 hstop, hvr.2.1, ha⟩ (fun t ht => hcross t ht r (by simp)) htail,
    covers_replace [r] fun p => ?_⟩
  simp only [Covers, List.exists_mem_cons_iff, List.not_mem_nil, false_and, exists_false, or_false]
  omega

/-- A range that no region behind it reaches. -/
theorem not_met_of_lt {s : Range} (h : new.start ≤ s.start) (hm : ¬ Met new s) : new.stop < s.start :=
  Nat.lt_of_not_le fun hle => hm ⟨h, hle⟩

/-- A range that starts in a region, or where it ends, is joined to it, and the region behind that it meets as well. -/
theorem extend_place {before rest : List Range} {r : Range} (h : Good (before ++ r :: rest))
    (ha : new.stop % pageSize = 0 ∧ new.stop ≤ usizeMax) (hr : r.start < new.start ∧ new.start ≤ r.stop)
    (hstop : r.stop < new.stop)
    (hone : ∀ s ∈ rest, ∀ t ∈ rest, Met new s → Met new t → s = t) :
    ∃ regions', tryMerge (before ++ ⟨r.start, new.stop⟩ :: rest) before.length = regions' ∧ Good regions' ∧
      (∀ p, Covers regions' p ↔ Covers (before ++ r :: rest) p ∨ new.start ≤ p ∧ p < new.stop) ∧
      regions'.length ≤ (before ++ r :: rest).length := by
  obtain ⟨-, hsorted, -⟩ := good_split h
  have hrest : ∀ s ∈ rest, new.start ≤ s.start := fun s hs => by
    have := (List.pairwise_cons.1 hsorted).1 s hs
    omega
  cases rest with
  | nil =>
    obtain ⟨hgood, hcov⟩ := extend_alone h ha hr hstop nofun
    exact ⟨_, tryMerge_nil before ⟨r.start, new.stop⟩, hgood, hcov, by simp⟩
  | cons s tail =>
    have hst : ∀ t ∈ tail, s.stop < t.start := (List.pairwise_cons.1 (List.pairwise_cons.1 hsorted).2).1
    have hvs := h.mem (r := s) (by simp)
    by_cases hs : s.start ≤ new.stop
    · -- a second region that is met would be the first one
      have htail : ∀ t ∈ tail, new.stop < t.start := fun t ht => by
        refine not_met_of_lt (hrest t (List.mem_cons_of_mem _ ht)) fun hm => ?_
        have he : s = t := hone s List.mem_cons_self t (List.mem_cons_of_mem _ ht) ⟨hrest s List.mem_cons_self, hs⟩ hm
        have := hst t ht
        rw [← he] at this
        omega
      obtain ⟨hgood, hcov⟩ := extend_good h ha hr hstop hs htail
      have he : (if s.stop > new.stop then s.stop else new.stop) = max new.stop s.stop := by
        split <;> omega
      refine ⟨_, tryMerge_met before tail hs, ?_, ?_, by simp⟩
      · rw [he]
        exact hgood
      · rw [he]
        exact hcov
    · have hs : new.stop < s.start := Nat.lt_of_not_le hs
      have htail : ∀ t ∈ s :: tail, new.stop < t.start := fun t ht => by
        rcases List.mem_cons.1 ht with rfl | ht
        · exact hs
        · have := hst t ht
          omega
      obtain ⟨hgood, hcov⟩ := extend_alone h ha hr hstop htail
      exact ⟨_, tryMerge_apart before tail hs, hgood, hcov, by simp⟩

/-- One range more. -/
theorem add_good (h : Good regions) (ha : new.start % pageSize = 0 ∧ new.stop % pageSize = 0 ∧ new.stop ≤ usizeMax)
    (hok : MergeOk regions new) (hlen : regions.length < maxCollected) :
    ∃ regions', add regions new = some regions' ∧ Good regions' ∧
      (∀ p, Covers regions' p ↔ Covers regions p ∨ new.start ≤ p ∧ p < new.stop) ∧
      regions'.length ≤ regions.length + 1 := by
  by_cases hlt : new.start < new.stop
  swap
  · refine ⟨regions, by rw [add, if_pos (Nat.le_of_not_lt hlt)], h, fun p => ⟨Or.inl, ?_⟩, Nat.le_succ _⟩
    rintro (hp | hp)
    · exact hp
    · omega
  have hmerge := hok hlt
  have hal : ¬ (new.start % pageSize ≠ 0 ∨ new.stop % pageSize ≠ 0) := by
    rintro (hne | hne)
    · exact hne ha.1
    · exact hne ha.2.1
  have hadd := add.eq_def regions new
  rw [if_neg (Nat.not_le.2 hlt), if_neg hal] at hadd
  obtain ⟨before, after, rfl, hi, hbefore, hcase⟩ := findPlace_spec new regions 0
  rw [Nat.zero_add] at hi
  rcases hcase with ⟨hfound, r, rest, rfl, hr⟩ | ⟨hfound, hafter⟩
  · -- the loop ended in a region that reaches the new one
    have hplace : findPlace new (before ++ r :: rest) 0 = (before.length, true) := Prod.ext hi hfound
    rw [hplace] at hadd
    simp only [List.getElem?_append_right (Nat.le_refl _), Nat.sub_self, List.getElem?_cons_zero, Option.bind_eq_bind,
      Option.bind_some] at hadd
    by_cases hstop : r.stop < new.stop
    · rw [if_pos hstop, List.set_append_right _ _ (Nat.le_refl _), Nat.sub_self, List.set_cons_zero] at hadd
      have hone : ∀ s ∈ rest, ∀ t ∈ rest, Met new s → Met new t → s = t := by
        intro s hs t ht hms hmt
        rcases hmerge with hnone | ⟨-, hone⟩
        · exact absurd hms (hnone s (by simp [hs]))
        · exact hone s (by simp [hs]) t (by simp [ht]) hms hmt
      obtain ⟨regions', he, hgood, hcov, hle⟩ := extend_place h ha.2 hr hstop hone
      exact ⟨regions', by rw [hadd, he], hgood, hcov, Nat.le_succ_of_le hle⟩
    · rw [if_neg hstop] at hadd
      refine ⟨_, hadd, h, fun p => ⟨Or.inl, ?_⟩, Nat.le_succ _⟩
      rintro (hp | hp)
      · exact hp
      · exact ⟨r, by simp, by omega, by omega⟩
  · -- no region that starts before the new one reaches it
    obtain ⟨-, hsorted, hcross⟩ := good_split h
    have hafter : ∀ r ∈ after, new.start ≤ r.start := by
      cases after with
      | nil => exact nofun
      | cons s tail =>
        intro t ht
        have hs := hafter s tail rfl
        rcases List.mem_cons.1 ht with rfl | ht
        · exact hs
        · have := (List.pairwise_cons.1 hsorted).1 t ht
          have := h.mem (r := s) (by simp)
          omega
    have hnone : ∀ s ∈ before ++ after, ¬ Met new s := by
      rcases hmerge with hnone | ⟨⟨r, hr, hr'⟩, -⟩
      · exact hnone
      · rcases List.mem_append.1 hr with hr | hr
        · exact absurd (hbefore r hr).2 (Nat.not_lt.2 hr'.2)
        · exact absurd (hafter r hr) (Nat.not_le.2 hr'.1)
    have hins : insert (before ++ after) before.length new = some (before ++ new :: after) := by
      rw [insert, if_pos hlen, insertIdx_split]
    obtain ⟨hgood, hcov⟩ := insert_good h hlt ha (fun r hr => (hbefore r hr).2)
      fun r hr => not_met_of_lt (hafter r hr) (hnone r (List.mem_append_right _ hr))
    refine ⟨_, ?_, hgood, hcov, by simp; omega⟩
    have hplace : findPlace new (before ++ after) 0 = (before.length, false) := Prod.ext hi hfound
    rw [hplace] at hadd
    rw [hadd, ← hins]
    simp only []
    split
    · rename_i r hr
      have hmem : r ∈ before := by
        split at hr
        · rw [List.getElem?_append_left (by omega)] at hr
          exact List.mem_of_getElem? hr
        · cases hr
      rw [if_neg (Nat.ne_of_lt (hbefore r hmem).2)]
    · rfl

end Add

/-! ## Registering the pieces -/

/-- All of frame `n` is in the piece. -/
def Whole (p : Nat × Nat) (n : Nat) : Prop := p.1 ≤ n * pageSize ∧ (n + 1) * pageSize ≤ p.2

/-- Frame `n` is in a region of the allocator. -/
def Registered (a : FrameAllocator) (n : Nat) : Prop := ∃ r ∈ a.regions, r.startPpn ≤ n ∧ n < r.startPpn + r.frames

/-- The allocator with the frames from `s` to `t` as one more region. -/
def extended (a : FrameAllocator) (s t : Nat) : FrameAllocator :=
  { a with
    regions := a.regions ++ [⟨s, t - s, a.trackedFrames, 0⟩]
    trackedFrames := a.trackedFrames + (t - s)
    freeFrames := a.freeFrames + (t - s) }

section Register

variable {a a' : FrameAllocator} {regions : List Range} {holeStart holeStop : Nat}

theorem whole_iff (p : Nat × Nat) (n : Nat) : Whole p n ↔ (p.1 + (pageSize - 1)) / pageSize ≤ n ∧ n < p.2 / pageSize := by
  unfold Whole pageSize
  omega

/-- The bounds that `addRegion` computes. -/
theorem addRegion_of_le (start stop : Nat) (hstop : stop ≤ usizeMax)
    (h : stop / pageSize ≤ (start + (pageSize - 1)) / pageSize) : a.addRegion start stop = some a := by
  have hup : andNot (min (start + (pageSize - 1)) usizeMax) (pageSize - 1) =
      min (start + (pageSize - 1)) usizeMax / pageSize * pageSize :=
    andNot_two_pow (k := 12) (Nat.min_le_right _ _) (by omega)
  have hdown : andNot stop (pageSize - 1) = stop / pageSize * pageSize := andNot_two_pow (k := 12) hstop (by omega)
  unfold FrameAllocator.addRegion
  rw [hup, hdown]
  refine if_pos (Nat.mul_le_mul_right _ ?_)
  unfold pageSize usizeMax at *
  omega

/-- The three assertions, and the region added. -/
theorem addRegion_of_lt (start stop : Nat) (hstop : stop ≤ usizeMax)
    (h : (start + (pageSize - 1)) / pageSize < stop / pageSize) (hlen : a.regions.length < maxRegions)
    (hapart : ∀ r ∈ a.regions, r.startPpn + r.frames ≤ (start + (pageSize - 1)) / pageSize) :
    a.addRegion start stop =
      if a.trackedFrames + (stop / pageSize - (start + (pageSize - 1)) / pageSize) ≤ maxTrackedFrames then
        some (extended a ((start + (pageSize - 1)) / pageSize) (stop / pageSize))
      else none := by
  have hmin : min (start + (pageSize - 1)) usizeMax = start + (pageSize - 1) := by
    unfold pageSize usizeMax at *
    omega
  have hup : andNot (start + (pageSize - 1)) (pageSize - 1) = (start + (pageSize - 1)) / pageSize * pageSize :=
    andNot_two_pow (k := 12) (by rw [← hmin]; exact Nat.min_le_right _ _) (by omega)
  have hdown : andNot stop (pageSize - 1) = stop / pageSize * pageSize := andNot_two_pow (k := 12) hstop (by omega)
  unfold FrameAllocator.addRegion
  rw [hmin, hup, hdown]
  generalize (start + (pageSize - 1)) / pageSize = s at *
  generalize stop / pageSize = t at *
  have hlt : ¬ s * pageSize ≥ t * pageSize := Nat.not_le.2 (Nat.mul_lt_mul_of_pos_right h (by decide))
  have hdiv : s * pageSize / pageSize = s := Nat.mul_div_cancel _ (by decide)
  have hfr : (t * pageSize - s * pageSize) / pageSize = t - s := by
    rw [← Nat.sub_mul, Nat.mul_div_cancel _ (by decide)]
  have hall : a.regions.all (fun r => s + (t - s) ≤ r.startPpn || s ≥ r.startPpn + r.frames) = true :=
    List.all_eq_true.2 fun r hr => by simp [hapart r hr]
  simp only [hlt, if_false, hdiv, hfr, hlen, hall, not_true_eq_false]
  split <;> simp_all [extended]

theorem registered_extended {s t : Nat} (h : s < t) (n : Nat) :
    Registered (extended a s t) n ↔ Registered a n ∨ s ≤ n ∧ n < t := by
  simp only [Registered, extended, List.mem_append, List.mem_singleton, or_and_right, exists_or, exists_eq_left]
  exact or_congr Iff.rfl ⟨fun h => by omega, fun h => by omega⟩

/-- The pieces, one behind the other, behind the registered regions: no assertion but the one on the number of frames
can fail, and then the frames are too many. -/
theorem register_spec : ∀ (ps : List (Nat × Nat)) (a : FrameAllocator), ps.Pairwise (fun p q => p.2 ≤ q.1) →
    (∀ p ∈ ps, p.1 ≤ p.2 ∧ p.2 ≤ usizeMax) → a.regions.length + ps.length ≤ maxRegions →
    (∀ r ∈ a.regions, ∀ p ∈ ps, (r.startPpn + r.frames) * pageSize ≤ p.1) →
    (∃ l : List Nat, l.Nodup ∧ l.length = a.trackedFrames ∧ ∀ n ∈ l, Registered a n) →
    (∀ a', register a ps = some a' → ∀ n, Registered a' n ↔ Registered a n ∨ ∃ p ∈ ps, Whole p n) ∧
      (register a ps = none → ∃ l : List Nat, l.Nodup ∧ maxTrackedFrames < l.length ∧
        ∀ n ∈ l, Registered a n ∨ ∃ p ∈ ps, Whole p n) := by
  intro ps
  induction ps with
  | nil =>
    intro a _ _ _ _ _
    refine ⟨fun a' h n => ?_, fun h => by cases h⟩
    cases h
    simp
  | cons p ps ih =>
    intro a hsorted hvalid hlen hbelow ⟨l, hnodup, htracked, hl⟩
    obtain ⟨hp, hsorted⟩ := List.pairwise_cons.1 hsorted
    have hvp := hvalid p List.mem_cons_self
    have hvalid : ∀ q ∈ ps, q.1 ≤ q.2 ∧ q.2 ≤ usizeMax := fun q hq => hvalid q (List.mem_cons_of_mem _ hq)
    have hreg : register a (p :: ps) = (a.addRegion p.1 p.2).bind fun a => register a ps := rfl
    have hps : ∀ n, (∃ q ∈ p :: ps, Whole q n) ↔ Whole p n ∨ ∃ q ∈ ps, Whole q n := fun n => by
      rw [List.exists_mem_cons_iff]
    simp only [hps]
    rw [List.length_cons] at hlen
    by_cases hlt : (p.1 + (pageSize - 1)) / pageSize < p.2 / pageSize
    · have hapart : ∀ r ∈ a.regions, r.startPpn + r.frames ≤ (p.1 + (pageSize - 1)) / pageSize := fun r hr => by
        have := hbelow r hr p List.mem_cons_self
        unfold pageSize at *
        omega
      have hnew : ∀ n, Registered a n → n < (p.1 + (pageSize - 1)) / pageSize := by
        rintro n ⟨r, hr, hn⟩
        have := hapart r hr
        omega
      -- the frames counted so far with those of the piece
      let l' := l ++ List.range' ((p.1 + (pageSize - 1)) / pageSize) (p.2 / pageSize - (p.1 + (pageSize - 1)) / pageSize)
      have hnodup' : l'.Nodup := by
        refine List.nodup_append'.2 ⟨hnodup, List.nodup_range', fun n hn hn' => ?_⟩
        have := hnew n (hl n hn)
        have := List.mem_range'_1.1 hn'
        omega
      have hlen' : l'.length = a.trackedFrames + (p.2 / pageSize - (p.1 + (pageSize - 1)) / pageSize) := by
        rw [List.length_append, htracked, List.length_range']
      have hl' : ∀ n ∈ l', Registered a n ∨ Whole p n := fun n hn => by
        rcases List.mem_append.1 hn with hn | hn
        · exact Or.inl (hl n hn)
        · have := List.mem_range'_1.1 hn
          exact Or.inr ((whole_iff p n).2 ⟨by omega, by omega⟩)
      rw [hreg, addRegion_of_lt p.1 p.2 hvp.2 hlt (by omega) hapart]
      split
      · -- registered
        have hstep : ∀ n, Registered (extended a ((p.1 + (pageSize - 1)) / pageSize) (p.2 / pageSize)) n ↔
            Registered a n ∨ Whole p n := fun n => by
          rw [whole_iff]
          exact registered_extended hlt n
        rw [Option.bind_some]
        have hih := ih (extended a ((p.1 + (pageSize - 1)) / pageSize) (p.2 / pageSize)) hsorted hvalid
          (by rw [extended, List.length_append, List.length_singleton]; omega) ?_
          ⟨l', hnodup', hlen', fun n hn => (hstep n).2 (hl' n hn)⟩
        · simp only [hstep, or_assoc] at hih
          exact hih
        · intro r hr q hq
          rcases List.mem_append.1 hr with hr | hr
          · exact hbelow r hr q (List.mem_cons_of_mem _ hq)
          · rw [List.mem_singleton.1 hr]
            have := hp q hq
            unfold pageSize at *
            simp only
            omega
      · -- the frames do not fit
        refine ⟨nofun, fun _ => ⟨l', hnodup', by omega, fun n hn => ?_⟩⟩
        rcases hl' n hn with h | h
        · exact Or.inl h
        · exact Or.inr (Or.inl h)
    · have hnone : ∀ n, ¬ Whole p n := fun n h => by
        have := (whole_iff p n).1 h
        omega
      rw [hreg, addRegion_of_le p.1 p.2 hvp.2 (Nat.le_of_not_lt hlt), Option.bind_some]
      simp only [hnone, false_or]
      exact ih a hsorted hvalid (by omega) (fun r hr q hq => hbelow r hr q (List.mem_cons_of_mem _ hq))
        ⟨l, hnodup, htracked, hl⟩

/-- Frame `n` is free memory: each of its bytes is in a region, and none is in the hole. -/
def Free (regions : List Range) (holeStart holeStop n : Nat) : Prop :=
  ∀ q, n * pageSize ≤ q → q < (n + 1) * pageSize → Covers regions q ∧ ¬ (holeStart ≤ q ∧ q < holeStop)

theorem clipRegion_mem {start stop : Nat} {p : Nat × Nat} (h : p ∈ clipRegion start stop holeStart holeStop) :
    start ≤ p.1 ∧ p.1 < p.2 ∧ p.2 ≤ stop := by
  unfold clipRegion at h
  split at h
  · simp at h
  split at h
  · rw [List.mem_singleton.1 h]
    exact ⟨Nat.le_refl _, by omega, Nat.le_refl _⟩
  rcases List.mem_append.1 h with h | h <;> split at h
  · rw [List.mem_singleton.1 h]
    exact ⟨Nat.le_refl _, by assumption, by omega⟩
  · simp at h
  · rw [List.mem_singleton.1 h]
    exact ⟨by omega, by assumption, Nat.le_refl _⟩
  · simp at h

theorem clipRegion_sorted (start stop holeStart holeStop : Nat) :
    (clipRegion start stop holeStart holeStop).Pairwise (fun p q => p.2 ≤ q.1) ∧
      (clipRegion start stop holeStart holeStop).length ≤ 2 := by
  unfold clipRegion
  split
  · simp
  split
  · simp
  split
  · split
    · simp
      omega
    · simp
  · split <;> simp

/-- Of a region, the pieces have the frames that the hole does not touch. -/
theorem clipRegion_whole {start stop : Nat} (hstop : stop % pageSize = 0) (n : Nat) :
    (∃ p ∈ clipRegion start stop holeStart holeStop, Whole p n) ↔
      (start ≤ n * pageSize ∧ n * pageSize < stop) ∧
        ∀ q, n * pageSize ≤ q → q < (n + 1) * pageSize → ¬ (holeStart ≤ q ∧ q < holeStop) := by
  have hend : n * pageSize < stop → (n + 1) * pageSize ≤ stop := by
    unfold pageSize at *
    omega
  have hpos : n * pageSize < (n + 1) * pageSize := Nat.mul_lt_mul_of_pos_right (Nat.lt_succ_self n) (by decide)
  constructor
  · rintro ⟨p, hp, hw⟩
    have hb := clipRegion_mem hp
    refine ⟨⟨by have := hw.1; omega, by have := hw.2; omega⟩, fun q hq hq' hhole => ?_⟩
    have h₁ := hw.1
    have h₂ := hw.2
    unfold clipRegion at hp
    split at hp
    · simp at hp
    split at hp
    · rw [List.mem_singleton.1 hp] at h₁ h₂
      simp only at h₁ h₂
      omega
    rcases List.mem_append.1 hp with hp | hp <;> split at hp
    · rw [List.mem_singleton.1 hp] at h₁ h₂
      simp only at h₁ h₂
      omega
    · simp at hp
    · rw [List.mem_singleton.1 hp] at h₁ h₂
      simp only at h₁ h₂
      omega
    · simp at hp
  · rintro ⟨⟨h₁, h₂⟩, hout⟩
    have h₃ := hend h₂
    have hlo := hout (n * pageSize) (Nat.le_refl _) hpos
    have hhole := fun hlt hlt' => hout holeStart hlt hlt'
    rw [clipRegion, if_neg (by omega)]
    by_cases hapart : holeStart ≥ holeStop ∨ stop ≤ holeStart ∨ start ≥ holeStop
    · rw [if_pos hapart]
      exact ⟨(start, stop), List.mem_singleton_self _, h₁, h₃⟩
    · rw [if_neg hapart]
      by_cases hbefore : (n + 1) * pageSize ≤ holeStart
      · rw [if_pos (by omega)]
        exact ⟨(start, holeStart), by simp, h₁, hbefore⟩
      · have hafter : holeStop ≤ n * pageSize := by omega
        rw [if_pos (show stop > holeStop by omega)]
        exact ⟨(holeStop, stop), by simp, hafter, h₃⟩

/-- The pieces of sorted regions. -/
theorem pieces_sorted (h : Good regions) (holeStart holeStop : Nat) :
    (pieces regions holeStart holeStop).Pairwise (fun p q => p.2 ≤ q.1) ∧
      (∀ p ∈ pieces regions holeStart holeStop, p.1 ≤ p.2 ∧ p.2 ≤ usizeMax) ∧
      (pieces regions holeStart holeStop).length ≤ 2 * regions.length := by
  refine ⟨?_, fun p hp => ?_, ?_⟩
  · refine List.pairwise_flatMap.2 ⟨fun r _ => (clipRegion_sorted r.start r.stop _ _).1, ?_⟩
    refine h.sorted.imp fun {r s} hrs p hp q hq => ?_
    have := clipRegion_mem hp
    have := clipRegion_mem hq
    omega
  · obtain ⟨r, hr, hp⟩ := List.mem_flatMap.1 hp
    have := clipRegion_mem hp
    have := h.mem hr
    omega
  · induction regions with
    | nil => simp [pieces]
    | cons r rest ih =>
      have hrest : Good rest := ⟨(List.pairwise_cons.1 h.sorted).2, fun s hs => h.valid s (List.mem_cons_of_mem _ hs)⟩
      have := ih hrest
      have := (clipRegion_sorted r.start r.stop holeStart holeStop).2
      simp only [pieces, List.flatMap_cons, List.length_append, List.length_cons] at *
      omega

theorem pieces_whole (h : Good regions) (n : Nat) :
    (∃ p ∈ pieces regions holeStart holeStop, Whole p n) ↔ Free regions holeStart holeStop n := by
  have hpos : n * pageSize < (n + 1) * pageSize := Nat.mul_lt_mul_of_pos_right (Nat.lt_succ_self n) (by decide)
  constructor
  · rintro ⟨p, hp, hw⟩
    obtain ⟨r, hr, hp⟩ := List.mem_flatMap.1 hp
    have hv := h.mem hr
    obtain ⟨-, hout⟩ := (clipRegion_whole hv.2.2.1 n).1 ⟨p, hp, hw⟩
    have hb := clipRegion_mem hp
    refine fun q hq hq' => ⟨⟨r, hr, ?_, ?_⟩, hout q hq hq'⟩
    · have := hw.1
      omega
    · have := hw.2
      omega
  · intro hfree
    obtain ⟨⟨r, hr, hq⟩, -⟩ := hfree (n * pageSize) (Nat.le_refl _) hpos
    have hv := h.mem hr
    obtain ⟨p, hp, hw⟩ := (clipRegion_whole hv.2.2.1 n).2 ⟨hq, fun q hq hq' => (hfree q hq hq').2⟩
    exact ⟨p, List.mem_flatMap.2 ⟨r, hr, hp⟩, hw⟩

/-- Of sorted regions exactly the free frames are registered, unless they are more than the allocator has bits for. -/
theorem register_exact (holeStart holeStop : Nat) (h : Good regions) (hlen : regions.length ≤ maxCollected) :
    (∀ a', register .new (pieces regions holeStart holeStop) = some a' →
      ∀ n, Registered a' n ↔ Free regions holeStart holeStop n) ∧
      (register .new (pieces regions holeStart holeStop) = none → ∃ l : List Nat, l.Nodup ∧
        maxTrackedFrames < l.length ∧ ∀ n ∈ l, Free regions holeStart holeStop n) := by
  obtain ⟨hsorted, hvalid, hle⟩ := pieces_sorted h holeStart holeStop
  have hnone : ∀ n, ¬ Registered .new n := by
    rintro n ⟨r, hr, -⟩
    simp [FrameAllocator.new] at hr
  have hspec := register_spec _ .new hsorted hvalid (by simp [FrameAllocator.new, maxRegions, maxCollected] at *; omega)
    (by simp [FrameAllocator.new]) ⟨[], by simp [FrameAllocator.new]⟩
  simp only [hnone, false_or, pieces_whole h] at hspec
  exact hspec

end Register

/-! ## Runs of the collector -/

/-- The ranges are page-aligned. -/
def Aligned (r : Range) : Prop := r.start % pageSize = 0 ∧ r.stop % pageSize = 0 ∧ r.stop ≤ usizeMax

instance (r : Range) : Decidable (Aligned r) := inferInstanceAs (Decidable (_ ∧ _ ∧ _))

/-- The regions after some ranges more. -/
theorem run_good : ∀ (rs : List Range) (regions : List Range), Good regions → (∀ r ∈ rs, Aligned r) →
    Meets add MergeOk regions rs → regions.length + rs.length ≤ maxCollected →
    ∃ regions', runs add regions rs = some regions' ∧ Good regions' ∧ Visits add Good regions rs ∧
      (∀ p, Covers regions' p ↔ Covers regions p ∨ Covers rs p) ∧ regions'.length ≤ regions.length + rs.length := by
  intro rs
  induction rs with
  | nil =>
    intro regions h _ _ _
    exact ⟨regions, rfl, h, h, fun p => by simp [Covers], Nat.le_refl _⟩
  | cons r rs ih =>
    intro regions h hal hok hlen
    rw [List.length_cons] at hlen
    obtain ⟨regions₁, hadd, h₁, hcov₁, hlen₁⟩ := add_good h (hal r List.mem_cons_self) hok.1 (by omega)
    obtain ⟨regions₂, hrun, h₂, hvisits, hcov₂, hlen₂⟩ :=
      ih regions₁ h₁ (fun s hs => hal s (List.mem_cons_of_mem _ hs)) (hok.2 regions₁ hadd) (by omega)
    refine ⟨regions₂, by rw [runs, hadd, Option.bind_some, hrun], h₂, ⟨h, fun s hs => ?_⟩, fun p => ?_, ?_⟩
    · rw [hadd] at hs
      cases hs
      exact hvisits
    · have hcons : Covers (r :: rs) p ↔ (r.start ≤ p ∧ p < r.stop) ∨ Covers rs p := by
        unfold Covers
        rw [List.exists_mem_cons_iff]
      rw [hcov₂, hcov₁, hcons, or_assoc]
    · rw [List.length_cons]
      omega

/-- Ranges that each join at most one region in front and one behind, the second only with the first: the regions stay
sorted and apart, their union is that of the ranges, and the pieces around a hole are registered exactly. -/
theorem collector_exact (rs : List Range) (hlen : rs.length ≤ maxCollected) (hal : ∀ r ∈ rs, Aligned r)
    (hok : Meets add MergeOk [] rs) :
    ∃ regions, runs add [] rs = some regions ∧ Visits add Good [] rs ∧ (∀ p, Covers regions p ↔ Covers rs p) ∧
      ∀ holeStart holeStop,
        (∀ a, register .new (pieces regions holeStart holeStop) = some a →
          ∀ n, Registered a n ↔ Free rs holeStart holeStop n) ∧
        (register .new (pieces regions holeStart holeStop) = none → ∃ l : List Nat, l.Nodup ∧
          maxTrackedFrames < l.length ∧ ∀ n ∈ l, Free rs holeStart holeStop n) := by
  obtain ⟨regions, hrun, hgood, hvisits, hcov, hle⟩ := run_good rs [] ⟨.nil, nofun⟩ hal hok (by simpa using hlen)
  have hcov : ∀ p, Covers regions p ↔ Covers rs p := fun p => by
    rw [hcov]
    simp [Covers]
  refine ⟨regions, hrun, hvisits, hcov, fun holeStart holeStop => ?_⟩
  have hexact := register_exact holeStart holeStop hgood (by simp at hle; omega)
  simp only [Free, hcov] at hexact
  exact hexact

/-- Three ranges, the last of which closes the gap between the others. -/
def gapClosed : List Range := [⟨0x3000, 0x4000⟩, ⟨0x1000, 0x2000⟩, ⟨0x2000, 0x3000⟩]

theorem collector_exact_gap : (gapClosed.length ≤ maxCollected ∧ (∀ r ∈ gapClosed, Aligned r) ∧
    Meets add MergeOk [] gapClosed) ∧ runs add [] gapClosed = some [⟨0x1000, 0x4000⟩] ∧
    ∀ p, Covers [⟨0x1000, 0x4000⟩] p ↔ Covers gapClosed p := by
  have hlen : gapClosed.length ≤ maxCollected := by decide
  have hal : ∀ r ∈ gapClosed, Aligned r := by decide +kernel
  have hok : Meets add MergeOk [] gapClosed := by decide +kernel
  have hrun : runs add [] gapClosed = some [⟨0x1000, 0x4000⟩] := by decide +kernel
  obtain ⟨regions, hrun', -, hcov, -⟩ := collector_exact gapClosed hlen hal hok
  rw [hrun] at hrun'
  cases hrun'
  exact ⟨⟨hlen, hal, hok⟩, hrun, hcov⟩

/-- A longer range with the same start is put in front of the shorter one, and the allocator refuses the second. -/
theorem collector_overlaps :
    (∀ r ∈ [Range.mk 0x1000 0x2000, Range.mk 0x1000 0x3000], Aligned r) ∧
      runs add [] [⟨0x1000, 0x2000⟩, ⟨0x1000, 0x3000⟩] = some [⟨0x1000, 0x3000⟩, ⟨0x1000, 0x2000⟩] ∧
      ¬ Good [⟨0x1000, 0x3000⟩, ⟨0x1000, 0x2000⟩] ∧
      register .new [(0x1000, 0x3000)] ≠ none ∧
      register .new (pieces [⟨0x1000, 0x3000⟩, ⟨0x1000, 0x2000⟩] 0 0) = none := by
  refine ⟨by decide +kernel, by decide +kernel, fun h => ?_, ?_, ?_⟩
  · have := (List.pairwise_cons.1 h.sorted).1 ⟨0x1000, 0x2000⟩ (by simp)
    simp at this
  · exact Option.isSome_iff_ne_none.1 (by decide +kernel)
  · exact Option.isNone_iff_eq_none.1 (by decide +kernel)

end Koros.Regions
