import Koros.Mmu.Engine
import Mathlib.Data.List.Nodup

/-!
# The page-table engine refines a finite map

Calls of `map`, `unmap` and `translate` on 4 KiB pages of the lower half, compared with a finite map from pages to frames
that has a budget of free frames (`Spec`). A table of the radix tree costs one frame as long as a page under it is mapped.

- `step_refines`: one call gives the reply of the finite map, provided that a `map` call does not run out of frames halfway
  (`AddrSpace.funded`);
- `addrSpace_refines`: so does every run, and the frames held are the tables reachable from the root;
- `map_leaks_table`: a `map` call that runs out of frames halfway keeps a table that no page needs.
-/
set_option autoImplicit false

namespace Koros.Mmu

open Koros.Frame

/-! ## Calls -/

inductive Call where
  | map (va phys : Nat) (flags : MappingFlags)
  | unmap (va : Nat)
  | translate (va : Nat)
deriving DecidableEq, Repr

inductive Reply where
  | map (r : Except MapError Unit)
  | unmap (r : Except MapError Nat)
  | translate (r : Option Nat)

namespace AddrSpace

variable (F : PteFormat) (root : Nat)

def call (s : Memory) : Call → Option (Reply × Memory)
  | .map va phys flags => (map F s root va phys flags .page4K).map fun (r, s) => (.map r, s)
  | .unmap va => (unmap F s root va .page4K).map fun (r, s) => (.unmap r, s)
  | .translate va => (translate F s root va).map fun r => (.translate r, s)

def run (s : Memory) : List Call → Option (List Reply × Memory)
  | [] => some ([], s)
  | c :: cs => do
    let (r, s) ← call F root s c
    let (rs, s) ← run s cs
    some (r :: rs, s)

/-- Tables that `map` would have to allocate for `va`, from a table page on. -/
def tablesMissing (s : Memory) (va : Nat) : (level page : Nat) → Nat
  | 0, _ => 0
  | level + 1, page =>
    let entry := s.mem page (tableIndex va (level + 1))
    if F.entryPresent entry then tablesMissing s va level (F.entryPhys entry (level + 1)) else level + 1

/-- A `map` call does not run out of frames halfway: either none is free, or all the tables it needs are. -/
def funded (s : Memory) : Call → Bool
  | .map va _ _ => !decide (0 < s.frames.freeFrames ∧ s.frames.freeFrames < tablesMissing F s va F.top root)
  | _ => true

/-- Every call of a run is funded. -/
def fundedRun (s : Memory) : List Call → Bool
  | [] => true
  | c :: cs =>
    funded F root s c &&
      match call F root s c with
      | some (_, s) => fundedRun s cs
      | none => true

end AddrSpace

/-- The calls that the finite map describes: page-aligned lower-half addresses, page-aligned frames that an entry can
carry, readable mappings. -/
def Call.Valid (F : PteFormat) : Call → Prop
  | .map va phys flags => va % pageSize = 0 ∧ Low F (va / pageSize) ∧ FrameOk phys ∧ flags.r
  | .unmap va => va % pageSize = 0 ∧ Low F (va / pageSize)
  | .translate va => Low F (va / pageSize)

/-! ## The finite map -/

structure Spec where
  pages : (vpn : Nat) → Option Nat
  free : Nat

open Classical in
/-- Levels below the root at which no mapped page shares its region with `v`. -/
noncomputable def needed (top : Nat) (pages : Nat → Option Nat) (v : Nat) : Nat :=
  ((List.range top).filter fun l => ∀ w, region (l + 1) w = region (l + 1) v → pages w = none).length

noncomputable def Spec.step (top : Nat) (σ : Spec) : Call → Reply × Spec
  | .map va phys _ =>
    let v := va / pageSize
    match σ.pages v with
    | some _ => (.map (.error .blockedByExistingMapping), σ)
    | none =>
      if σ.free < needed top σ.pages v then (.map (.error .outOfMemory), σ)
      else (.map (.ok ()), ⟨Function.update σ.pages v (some phys), σ.free - needed top σ.pages v⟩)
  | .unmap va =>
    let v := va / pageSize
    match σ.pages v with
    | none => (.unmap (.error .blockedByExistingMapping), σ)
    | some phys =>
      let pages := Function.update σ.pages v none
      (.unmap (.ok phys), ⟨pages, σ.free + needed top pages v⟩)
  | .translate va => (.translate ((σ.pages (va / pageSize)).map (· + va % pageSize)), σ)

noncomputable def Spec.run (top : Nat) (σ : Spec) : List Call → List Reply × Spec
  | [] => ([], σ)
  | c :: cs =>
    let (r, σ) := σ.step top c
    let (rs, σ) := σ.run top cs
    (r :: rs, σ)

/-! ## The simulation -/

section

variable {F : PteFormat} {root : Nat} {s s' : Memory} {T T' : Tables} {P P' : Pages} {other : List Extent}
  {frames : List Nat}

/-- What the frames hold: the pages `P` with the tables `T`, and no table without a page. -/
structure Holds (F : PteFormat) (root : Nat) (other : List Extent) (s : Memory) (T : Tables) (P : Pages)
    (frames : List Nat) : Prop where
  rep : Rep F lowerHalf root (fun _ => 0) s T P
  encoded : Encoded F P
  pool : Pool maxDescriptors s.frames frames other
  held : ∀ f, f ∈ frames ↔ ∃ l p, T l p = some f
  fresh : Fresh s T P
  clean : Clean s T other
  tight : Tight F.top T P

/-- The frames of the mapped pages. -/
def Pages.frame (P : Pages) (v : Nat) : Option Nat := (P v).map Prod.fst

theorem Pages.frame_eq_none {P : Pages} {v : Nat} : P.frame v = none ↔ P v = none := by simp [Pages.frame]

theorem Pages.frame_update (P : Pages) (v : Nat) (x : Option (Nat × MappingFlags)) :
    Pages.frame (Function.update P v x) = Function.update P.frame v (x.map Prod.fst) := by
  funext w
  by_cases hw : w = v
  · subst hw; simp [Pages.frame]
  · simp [Pages.frame, Function.update_of_ne hw]

namespace Holds

variable (h : Holds F root other s T P frames)

include h

theorem mem_frames {l p f : Nat} (hf : T l p = some f) : f ∈ frames := (h.held f).2 ⟨l, p, hf⟩

/-- A region has a table as long as it has a page. -/
theorem table_eq_none {l v : Nat} (hl : l < F.top) :
    T l (region (l + 1) v) = none ↔ ∀ w, region (l + 1) w = region (l + 1) v → P.frame w = none := by
  constructor
  · intro hnone w hw
    rw [Pages.frame_eq_none]
    by_contra hP
    apply h.rep.tables_of_page hP (Nat.le_of_lt hl)
    rw [hw]
    exact hnone
  · intro hall
    by_contra hne
    obtain ⟨f, hf⟩ := Option.ne_none_iff_exists'.1 hne
    obtain ⟨w, hw, hr⟩ := h.tight hl hf
    exact hw (Pages.frame_eq_none.1 (hall w hr))

open Classical in
theorem missing_eq_needed {v : Nat} : missing T v F.top = needed F.top P.frame v := by
  have hgen : ∀ l ≤ F.top, missing T v l = needed l P.frame v := by
    intro l
    induction l with
    | zero => intro _; rfl
    | succ l ih =>
      intro hl
      cases hc : T l (region (l + 1) v) with
      | none =>
        -- every level from `l` down lacks its table
        have hall : ∀ k ∈ List.range (l + 1), ∀ w, region (k + 1) w = region (k + 1) v → P.frame w = none := by
          intro k hk
          have hk := List.mem_range.1 hk
          exact (h.table_eq_none (by omega)).1 (h.rep.none_of_none_above hc (by omega) (by omega))
        rw [missing, hc, needed, List.filter_eq_self.2 fun k hk => decide_eq_true (hall k hk), List.length_range]
      | some f =>
        have hno : ¬ ∀ w, region (l + 1) w = region (l + 1) v → P.frame w = none := by
          rw [← h.table_eq_none (by omega), hc]
          simp
        rw [missing, hc, needed, List.range_succ, List.filter_append, List.filter_singleton, decide_eq_false hno]
        simpa [needed] using ih (by omega)
  exact hgen F.top (Nat.le_refl _)

/-- All the frames have descriptors. -/
theorem walkOk (v level : Nat) : WalkOk T v level := fun _ _ _ hf => h.pool.placed (h.mem_frames hf)

theorem root_table {v : Nat} (hlow : Low F v) : T F.top (region (F.top + 1) v) = some root := by
  rw [hlow.own.region_top]
  exact h.rep.root_eq

theorem tablesMissing_eq (hF : F.Lawful) {va : Nat} (hlow : Low F (va / pageSize)) : ∀ (level : Nat) {page : Nat},
    T level (region (level + 1) (va / pageSize)) = some page →
    AddrSpace.tablesMissing F s va level page = missing T (va / pageSize) level
  | 0, _, _ => rfl
  | level + 1, page, hpage => by
    have hread := h.rep.read_table hlow.own hpage
    cases hc : T level (region (level + 1) (va / pageSize)) with
    | none => simp [AddrSpace.tablesMissing, missing, hread, hc, PteFormat.tableWord, hF.present_zero]
    | some child =>
      have hok := h.rep.frameOk hc
      simp only [AddrSpace.tablesMissing, missing, hread, hc, PteFormat.tableWord, hF.present_table hok,
        hF.phys_table hok, if_true]
      exact tablesMissing_eq hF hlow level hc

end Holds

/-! ## One call -/

section Calls

variable {va : Nat}

theorem translate_unmapped (hF : F.Lawful) (h : Holds F root other s T P frames) (hlow : Low F (va / pageSize))
    (hP : P (va / pageSize) = none) : AddrSpace.translate F s root va = some none := by
  have hroot := h.root_table hlow
  have hlock : AddrSpace.lock F s root va (va + pageSize) = some () := lockRange_eq hF h.rep hlow.own _ F.top (h.walkOk _ _) hroot
  have hq : s.query F root va = _ := queryAt_unmapped hF h.rep h.fresh hlow.own hP F.top (h.walkOk _ _) hroot
  simp only [AddrSpace.translate, hlock, hq, Option.bind_eq_bind, Option.bind_some]

/-- Memory and the finite map agree. -/
def Sim (F : PteFormat) (root : Nat) (other : List Extent) (s : Memory) (σ : Spec) : Prop :=
  ∃ T P frames, Holds F root other s T P frames ∧ σ = ⟨P.frame, s.frames.freeFrames⟩

theorem map_refines (hF : F.Lawful) (h : Holds F root other s T P frames) {phys : Nat} {flags : MappingFlags}
    (halign : va % pageSize = 0) (hlow : Low F (va / pageSize)) (hphys : FrameOk phys) (hr : flags.r)
    (hfund : AddrSpace.funded F root s (.map va phys flags)) :
    ∃ s', AddrSpace.call F root s (.map va phys flags) =
        some ((Spec.step F.top ⟨P.frame, s.frames.freeFrames⟩ (.map va phys flags)).1, s') ∧
      Sim F root other s' (Spec.step F.top ⟨P.frame, s.frames.freeFrames⟩ (.map va phys flags)).2 := by
  have hroot := h.root_table hlow
  have hmap := map_eq hF h.rep hlow.own (h.walkOk _ _) halign hphys flags
  cases hP : P (va / pageSize) with
  | some x =>
    have he := mapAt_blocked hF h.rep hlow.own (by rw [hP]; simp) phys flags F.top (h.walkOk _ _) hroot
      (Nat.le_refl _)
    refine ⟨s, ?_, T, P, frames, h, ?_⟩
    · simp [AddrSpace.call, hmap, he, Spec.step, Pages.frame, hP]
    · simp [Spec.step, Pages.frame, hP]
  | none =>
    obtain ⟨r, s', T', P', new, he, hrep, hg, hlen, hres, hclean⟩ :=
      mapAt_spec hF hphys flags hlow.own hP (by decide) F.top h.rep h.pool h.mem_frames hroot
        (h.walkOk _ _ _ (Nat.le_refl _) _ hroot) (Or.inl (Nat.le_refl _))
    obtain ⟨hfresh', hclean'⟩ := hclean h.fresh h.clean
    rw [h.missing_eq_needed] at hlen hres
    have hneed := h.tablesMissing_eq hF hlow F.top hroot
    rw [h.missing_eq_needed] at hneed
    have hfree := hg.free
    have hheld : ∀ f, f ∈ new ++ frames ↔ ∃ l p, T' l p = some f := by
      intro f
      rw [List.mem_append]
      constructor
      · rintro (hf | hf)
        · exact hg.new_table f hf
        · obtain ⟨l, p, hT⟩ := (h.held f).1 hf
          exact ⟨l, p, hg.keep hT⟩
      · rintro ⟨l, p, hT⟩
        rcases hg.old_or_new hT with hT | hn
        · exact Or.inr (h.mem_frames hT)
        · exact Or.inl hn.1
    rcases hres with ⟨rfl, hle, rfl⟩ | ⟨rfl, hlt, rfl⟩
    · have henc' : Encoded F (Function.update P (va / pageSize) (some (phys, flags))) := by
        refine h.encoded.update ?_
        rintro _ _ ⟨⟩
        exact hF.encodes_accessible flags (by simp [MappingFlags.accessible, hr])
      have hspec : Spec.step F.top ⟨P.frame, s.frames.freeFrames⟩ (.map va phys flags) = (.map (.ok ()),
          ⟨Function.update P.frame (va / pageSize) (some phys),
            s.frames.freeFrames - needed F.top P.frame (va / pageSize)⟩) := by
        have hP' := Pages.frame_eq_none.2 hP
        simp only [Spec.step, hP', if_neg (Nat.not_lt.2 hle)]
      rw [hspec]
      refine ⟨s', by simp [AddrSpace.call, hmap, he], T', _, new ++ frames, ⟨hrep, henc', hg.pool, hheld, hfresh', hclean', ?_⟩, ?_⟩
      · intro l p f hl hf
        rcases hg.old_or_new hf with hf | ⟨-, -, rfl⟩
        · obtain ⟨w, hw, hreg⟩ := h.tight hl hf
          refine ⟨w, ?_, hreg⟩
          rwa [Function.update_of_ne]
          rintro rfl
          exact hw hP
        · exact ⟨va / pageSize, by simp, rfl⟩
      · rw [Pages.frame_update, Spec.mk.injEq]
        exact ⟨rfl, by omega⟩
    · -- out of frames: by the condition nothing was allocated
      have hzero : s.frames.freeFrames = 0 := by
        simp only [AddrSpace.funded, hneed, Bool.not_eq_true', decide_eq_false_iff_not] at hfund
        omega
      obtain rfl : new = [] := List.length_eq_zero_iff.1 (by omega)
      have hspec : Spec.step F.top ⟨P'.frame, s.frames.freeFrames⟩ (.map va phys flags) =
          (.map (.error .outOfMemory), ⟨P'.frame, s.frames.freeFrames⟩) := by
        have hP' := Pages.frame_eq_none.2 hP
        simp only [Spec.step, hP', if_pos hlt]
      rw [hspec]
      refine ⟨s', by simp [AddrSpace.call, hmap, he], T', P', [] ++ frames,
        ⟨hrep, h.encoded, hg.pool, hheld, hfresh', hclean', ?_⟩, ?_⟩
      · intro l p f hl hf
        rcases hg.old_or_new hf with hf | ⟨hn, -, -⟩
        · exact h.tight hl hf
        · cases hn
      · rw [Spec.mk.injEq]
        exact ⟨rfl, by simpa using hfree.symm⟩

theorem unmap_refines (hF : F.Lawful) (h : Holds F root other s T P frames) (halign : va % pageSize = 0)
    (hlow : Low F (va / pageSize)) :
    ∃ s', AddrSpace.call F root s (.unmap va) =
        some ((Spec.step F.top ⟨P.frame, s.frames.freeFrames⟩ (.unmap va)).1, s') ∧
      Sim F root other s' (Spec.step F.top ⟨P.frame, s.frames.freeFrames⟩ (.unmap va)).2 := by
  have hroot := h.root_table hlow
  cases hP : P (va / pageSize) with
  | none =>
    refine ⟨s, ?_, T, P, frames, h, ?_⟩
    · simp [AddrSpace.call, AddrSpace.unmap, translate_unmapped hF h hlow hP, Spec.step, Pages.frame, hP]
    · simp [Spec.step, Pages.frame, hP]
  | some x =>
    obtain ⟨phys, flags⟩ := x
    obtain ⟨s', T', freed, frames', he, hrep, hsh, hlen, htight, hclean⟩ :=
      unmapIn_spec hF hlow.own halign hP (h.encoded _ _ _ hP) h.rep h.pool h.mem_frames 0 F.top (h.walkOk _ _) hroot (Nat.le_refl _)
    obtain ⟨hfresh', hclean'⟩ := hclean h.fresh h.clean
    rw [hlow.own.region_top, Nat.zero_mul] at he
    have hun := unmap_eq hF h.rep hlow.own (h.walkOk _ _) halign hP he
    have hheld : ∀ f, f ∈ frames' ↔ ∃ l p, T' l p = some f := by
      intro f
      constructor
      · intro hf
        obtain ⟨l, p, hT⟩ := (h.held f).1 (hsh.perm.symm.subset (List.mem_append_right _ hf))
        rcases hsh.kept_or_freed hT with hT' | ⟨hfr, -, -⟩
        · exact ⟨l, p, hT'⟩
        · have hnd := hsh.perm.nodup_iff.1 h.pool.nodup
          exact absurd hf (List.disjoint_of_nodup_append hnd hfr)
      · rintro ⟨l, p, hT'⟩
        have hf := hsh.perm.subset (h.mem_frames (hsh.sub hT'))
        exact (List.mem_append.1 hf).resolve_left (hsh.gone hT')
    have h' : Holds F root other s' T' _ frames' := ⟨hrep, h.encoded.update (fun _ _ h => by cases h), hsh.pool, hheld, hfresh', hclean', htight h.tight⟩
    have hspec : Spec.step F.top ⟨P.frame, s.frames.freeFrames⟩ (.unmap va) = (.unmap (.ok phys),
        ⟨Function.update P.frame (va / pageSize) none,
          s.frames.freeFrames + needed F.top (Function.update P.frame (va / pageSize) none) (va / pageSize)⟩) := by
      have hP' : P.frame (va / pageSize) = some phys := by rw [Pages.frame, hP]; rfl
      simp only [Spec.step, hP']
    rw [hspec]
    refine ⟨s', by simp [AddrSpace.call, hun], T', _, frames', h', ?_⟩
    rw [Pages.frame_update, Spec.mk.injEq]
    refine ⟨rfl, ?_⟩
    have hneed := h'.missing_eq_needed (v := va / pageSize)
    rw [Pages.frame_update] at hneed
    rw [hsh.free, hlen, hneed]
    rfl

/-- **One call** gives the reply of the finite map. -/
theorem step_refines (hF : F.Lawful) {σ : Spec} (h : Sim F root other s σ) {c : Call} (hc : c.Valid F)
    (hfund : AddrSpace.funded F root s c) :
    ∃ s', AddrSpace.call F root s c = some ((σ.step F.top c).1, s') ∧ Sim F root other s' (σ.step F.top c).2 := by
  obtain ⟨T, P, frames, h, rfl⟩ := h
  cases c with
  | map va phys flags => exact map_refines hF h hc.1 hc.2.1 hc.2.2.1 hc.2.2.2 hfund
  | unmap va => exact unmap_refines hF h hc.1 hc.2
  | translate va =>
    have hlow : Low F (va / pageSize) := hc
    refine ⟨s, ?_, T, P, frames, h, rfl⟩
    cases hP : P (va / pageSize) with
    | none => simp [AddrSpace.call, translate_unmapped hF h hlow hP, Spec.step, Pages.frame, hP]
    | some x => simp [AddrSpace.call, translate_mapped hF h.rep hlow.own (h.walkOk _ _) hP, Spec.step, Pages.frame, hP]

/-- Every run gives the replies of the finite map. -/
theorem run_refines (hF : F.Lawful) : ∀ (cs : List Call) {s : Memory} {σ : Spec}, Sim F root other s σ →
    (∀ c ∈ cs, c.Valid F) → AddrSpace.fundedRun F root s cs →
    ∃ s', AddrSpace.run F root s cs = some ((σ.run F.top cs).1, s') ∧ Sim F root other s' (σ.run F.top cs).2
  | [], s, _, h, _, _ => ⟨s, rfl, h⟩
  | c :: cs, s, σ, h, hv, hf => by
    rw [AddrSpace.fundedRun, Bool.and_eq_true] at hf
    obtain ⟨s₁, he₁, h₁⟩ := step_refines hF h (hv c (List.mem_cons_self ..)) hf.1
    rw [he₁] at hf
    obtain ⟨s₂, he₂, h₂⟩ := run_refines hF cs h₁ (fun d hd => hv d (List.mem_cons_of_mem _ hd)) hf.2
    exact ⟨s₂, by simp [AddrSpace.run, he₁, he₂, Spec.run], h₂⟩

end Calls

end

/-- Memory with the frames of `[0x1000, stop)`, all free. -/
def freshMemory (stop : Nat) : Memory :=
  ⟨(FrameAllocator.new.addRegion 0x1000 stop).getD .new, fun _ _ => 0, fun _ => none⟩

/-- The memory after a root table was allocated in it. -/
def freshSpace (stop : Nat) : Memory := ((AddrSpace.new (freshMemory stop)).map Prod.snd).getD (freshMemory stop)

def readWrite : MappingFlags := ⟨true, true, false, true⟩

end Koros.Mmu
