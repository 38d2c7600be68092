import Koros.Mmu.Shape

/-!
# What the engine does to 4 KiB pages

One lemma for each operation of the cursor, over the description of `Koros.Mmu.Shape`:

- `lockRange_eq`, `queryAt_mapped`, `queryAt_unmapped`: walks end where the description says;
- `mapAt_blocked`, `mapAt_spec`: a mapped page is refused, any other page is mapped after the missing tables are
  allocated, unless the frames run out;
- `unmapIn_spec`: the page is unmapped and the tables that became empty are freed;
- `translate_mapped`, `map_eq`, `unmap_eq`: the calls of an address space in terms of these.
-/
set_option autoImplicit false

namespace Koros.Mmu

open Koros.Frame

/-! ## Metadata -/

theorem TableOk.setStatus {page : Nat} (h : TableOk page) (s : Memory) (i : Nat) (st : PageStatus) :
    s.setStatus page i st = some { s with
      metadata := Function.update s.metadata (page / pageSize)
        (some (Function.update ((s.metadata (page / pageSize)).getD fun _ => .invalid) i st)) } := by
  rw [Memory.setStatus, h.descriptorOf]
  rfl

theorem TableOk.dropMetadata {page : Nat} (h : TableOk page) (s : Memory) :
    s.dropMetadata page = some { s with metadata := Function.update s.metadata (page / pageSize) none } := by
  rw [Memory.dropMetadata, h.descriptorOf]
  rfl

/-- Reading back a status after it was written. -/
theorem stat_update (s : Memory) {page f : Nat} (hp : page % pageSize = 0) (hf : f % pageSize = 0) (i j : Nat) (st : PageStatus)
    {s' : Memory} (hs : s'.metadata = Function.update s.metadata (page / pageSize)
      (some (Function.update ((s.metadata (page / pageSize)).getD fun _ => .invalid) i st))) :
    s'.stat f j = if f = page ∧ j = i then st else s.stat f j := by
  unfold Memory.stat
  rw [hs]
  by_cases hfp : f = page
  · subst hfp
    rw [Function.update_self]
    by_cases hj : j = i
    · subst hj
      simp
    · simp only [hj, and_false, if_false, Function.update_of_ne hj]
      cases s.metadata (f / pageSize) <;> rfl
  · rw [Function.update_of_ne (div_ne_of_aligned hf hp hfp), if_neg fun h => hfp h.1]

theorem stat_drop (s : Memory) {page f : Nat} (hp : page % pageSize = 0) (hf : f % pageSize = 0) (j : Nat) (hne : f ≠ page)
    {s' : Memory} (hs : s'.metadata = Function.update s.metadata (page / pageSize) none) : s'.stat f j = s.stat f j := by
  unfold Memory.stat
  rw [hs, Function.update_of_ne (div_ne_of_aligned hf hp hne)]

/-! ## Walks -/

/-- The tables on the walk of page `v`, from level `level` down, have descriptors. -/
def WalkOk (T : Tables) (v level : Nat) : Prop := ∀ l ≤ level, ∀ f, T l (region (l + 1) v) = some f → TableOk f

theorem WalkOk.lower {T : Tables} {v level : Nat} (h : WalkOk T v (level + 1)) : WalkOk T v level :=
  fun l hl => h l (Nat.le_succ_of_le hl)

theorem PteFormat.Lawful.top_pos {F : PteFormat} (hF : F.Lawful) : 0 < F.top := by
  have := hF.two_le_levels
  unfold PteFormat.top
  omega

section Walk

variable {F : PteFormat} {E : Nat → Prop} {root : Nat} {high : Nat → Nat} {s : Memory} {T : Tables} {P : Pages} {va page : Nat}

theorem Own.region_top {v : Nat} (h : Own F E v) : region (F.top + 1) v = 0 := by
  rw [region_succ]
  exact Nat.div_eq_of_lt h.1

theorem Own.index_mem {v l : Nat} (h : Own F E v) (hl : l + 1 = F.top) : E (region (l + 1) v % 512) := by
  rw [hl, Nat.mod_eq_of_lt h.1]
  exact h.2

theorem Rep.read_table (h : Rep F E root high s T P) (hlow : Own F E (va / pageSize)) {l : Nat}
    (hT : T (l + 1) (region (l + 2) (va / pageSize)) = some page) :
    s.mem page (tableIndex va (l + 1)) = F.tableWord (T l (region (l + 1) (va / pageSize))) := by
  rw [tableIndex_eq, h.entry hT _ (Nat.mod_lt _ (by decide)) fun hl => hlow.index_mem hl, region_split]

theorem Rep.read_leaf (h : Rep F E root high s T P) (hT : T 0 (region 1 (va / pageSize)) = some page) :
    s.mem page (tableIndex va 0) = F.leafWord (P (va / pageSize)) := by
  rw [tableIndex_eq, h.leaf hT _ (Nat.mod_lt _ (by decide)), region_split, region_zero]

/-- The tables above a table on the walk of a page exist. -/
theorem Rep.tables_above (h : Rep F E root high s T P) {v l : Nat} (hne : T l (region (l + 1) v) ≠ none) :
    ∀ k, l + k ≤ F.top → T (l + k) (region (l + k + 1) v) ≠ none
  | 0, _ => hne
  | k + 1, hk => by
    have hp := h.parent (h.tables_above hne k (by omega)) (by omega)
    rwa [← region_succ] at hp

/-- The tables on the walk of a mapped page exist. -/
theorem Rep.tables_of_page (h : Rep F E root high s T P) {v : Nat} (hP : P v ≠ none) {l : Nat} (hl : l ≤ F.top) :
    T l (region (l + 1) v) ≠ none := by
  have h0 : T 0 (region 1 v) ≠ none := by
    rw [region_succ, region_zero]
    exact h.pageParent hP
  have := h.tables_above h0 l (by omega)
  rwa [Nat.zero_add] at this

theorem lockRange_eq (hF : F.Lawful) (h : Rep F E root high s T P) (hlow : Own F E (va / pageSize)) (stop : Nat) :
    ∀ (level : Nat) {page : Nat}, WalkOk T (va / pageSize) level →
      T level (region (level + 1) (va / pageSize)) = some page → s.lockRange F va stop level page = some ()
  | 0, page, hw, hT => (hw 0 (Nat.le_refl _) _ hT).lockPage
  | level + 1, page, hw, hT => by
    have hread := h.read_table hlow hT
    simp only [Memory.lockRange, (hw _ (Nat.le_refl _) _ hT).lockPage, hread, Option.bind_eq_bind, Option.bind_some]
    cases hc : T level (region (level + 1) (va / pageSize)) with
    | none => simp [PteFormat.tableWord, hF.present_zero]
    | some child =>
      simp only [PteFormat.tableWord, hF.phys_table (h.frameOk hc)]
      split
      · rfl
      · exact lockRange_eq hF h hlow stop level hw.lower hc

/-- A query of a mapped page that did not panic found the descriptors of the tables on its walk. -/
theorem walkOk_of_queryAt (hF : F.Lawful) (h : Rep F E root high s T P) (hlow : Own F E (va / pageSize))
    (hP : P (va / pageSize) ≠ none) : ∀ (level : Nat) {page : Nat} (inh : PageStatus),
      T level (region (level + 1) (va / pageSize)) = some page → level ≤ F.top →
      s.queryAt F va level page inh ≠ none → WalkOk T (va / pageSize) level
  | level, page, inh, hT, hle, hne => by
    have hok : TableOk page := by
      by_contra hno
      have hst : s.status page (tableIndex va level) = none := by
        have hd : Memory.descriptorOf page = none := if_neg hno
        rw [Memory.status, hd]
        rfl
      rw [Memory.queryAt, hst] at hne
      exact hne rfl
    intro l hl f hf
    rcases Nat.eq_or_lt_of_le hl with rfl | hlt
    · rw [hT] at hf
      exact Option.some.inj hf ▸ hok
    · obtain ⟨level, rfl⟩ : ∃ k, level = k + 1 := ⟨level - 1, by omega⟩
      have hread := h.read_table hlow hT
      obtain ⟨child, hc⟩ := Option.ne_none_iff_exists'.1 (h.tables_of_page (l := level) hP (by omega))
      have hcok := h.frameOk hc
      rw [hc] at hread
      rw [Memory.queryAt] at hne
      simp only [s.status_eq hok, hread, PteFormat.tableWord, hF.present_table hcok, hF.phys_table hcok,
        hF.not_leaf_table hcok, Option.bind_eq_bind, Option.bind_some, Bool.not_true, Bool.false_eq_true,
        if_false] at hne
      exact walkOk_of_queryAt hF h hlow hP level _ hc (by omega) hne l (by omega) f hf

/-- A mapped page is found at level 0. -/
theorem queryAt_mapped (hF : F.Lawful) (h : Rep F E root high s T P) (hlow : Own F E (va / pageSize)) {phys : Nat}
    {flags : MappingFlags} (hP : P (va / pageSize) = some (phys, flags)) : ∀ (level : Nat) {page : Nat} (inh : PageStatus),
      WalkOk T (va / pageSize) level → T level (region (level + 1) (va / pageSize)) = some page → level ≤ F.top →
      s.queryAt F va level page inh = some (.mapped phys (F.granted flags) (span 0))
  | 0, page, inh, hw, hT, _ => by
    have hread := h.read_leaf hT
    have hok := h.pageOk hP
    rw [hP] at hread
    rw [Memory.queryAt]
    simp only [s.status_eq (hw 0 (Nat.le_refl _) _ hT), hread, PteFormat.leafWord, hF.present_leaf hok,
      hF.phys_leaf hok, hF.flags_leaf hok, Option.bind_eq_bind, Option.bind_some, Bool.not_true, Bool.false_eq_true, if_false]
  | level + 1, page, inh, hw, hT, hle => by
    have hread := h.read_table hlow hT
    obtain ⟨child, hc⟩ := Option.ne_none_iff_exists'.1 (h.tables_of_page (l := level) (by rw [hP]; simp) (by omega))
    have hok := h.frameOk hc
    rw [hc] at hread
    rw [Memory.queryAt]
    simp only [s.status_eq (hw _ (Nat.le_refl _) _ hT), hread, PteFormat.tableWord, hF.present_table hok, hF.phys_table hok,
      hF.not_leaf_table hok, Option.bind_eq_bind, Option.bind_some, Bool.not_true, Bool.false_eq_true, if_false]
    exact queryAt_mapped hF h hlow hP level _ hw.lower hc (by omega)

/-- The metadata of tables describes the mapped pages and nothing else. -/
def Fresh (s : Memory) (T : Tables) (P : Pages) : Prop :=
  ∀ {l p f : Nat}, T l p = some f → ∀ i < 512, (l = 0 → P (p * 512 + i) = none) → s.stat f i = .invalid

/-- An unmapped page has no status. -/
theorem queryAt_unmapped (hF : F.Lawful) (h : Rep F E root high s T P) (hfresh : Fresh s T P)
    (hlow : Own F E (va / pageSize)) (hP : P (va / pageSize) = none) : ∀ (level : Nat) {page : Nat},
      WalkOk T (va / pageSize) level → T level (region (level + 1) (va / pageSize)) = some page →
      s.queryAt F va level page .invalid = some .invalid
  | 0, page, hw, hT => by
    have hread := h.read_leaf hT
    have hst : s.stat page (tableIndex va 0) = .invalid := by
      refine hfresh hT _ (tableIndex_lt va 0) fun _ => ?_
      rw [tableIndex_eq, region_split, region_zero]
      exact hP
    rw [hP] at hread
    rw [Memory.queryAt]
    simp only [s.status_eq (hw 0 (Nat.le_refl _) _ hT), hst, hread, PteFormat.leafWord, hF.present_zero,
      Option.bind_eq_bind, Option.bind_some, Bool.not_false, if_true]
  | level + 1, page, hw, hT => by
    have hread := h.read_table hlow hT
    have hst : s.stat page (tableIndex va (level + 1)) = .invalid := hfresh hT _ (tableIndex_lt va _) nofun
    rw [Memory.queryAt]
    simp only [s.status_eq (hw _ (Nat.le_refl _) _ hT), hst, hread, Option.bind_eq_bind, Option.bind_some, if_true]
    cases hc : T level (region (level + 1) (va / pageSize)) with
    | none => simp [PteFormat.tableWord, hF.present_zero]
    | some child =>
      have hok := h.frameOk hc
      simp only [PteFormat.tableWord, hF.present_table hok, hF.phys_table hok, hF.not_leaf_table hok, Bool.not_true,
        Bool.false_eq_true, if_false]
      exact queryAt_unmapped hF h hfresh hlow hP level hw.lower hc

/-- A page that is mapped is refused. -/
theorem mapAt_blocked (hF : F.Lawful) (h : Rep F E root high s T P) (hlow : Own F E (va / pageSize))
    (hP : P (va / pageSize) ≠ none) (phys : Nat) (flags : MappingFlags) : ∀ (level : Nat) {page : Nat},
      WalkOk T (va / pageSize) level → T level (region (level + 1) (va / pageSize)) = some page → level ≤ F.top →
      Memory.mapAt F va phys flags 0 level page s = some (.error .blockedByExistingMapping, s)
  | 0, page, hw, hT, _ => by
    obtain ⟨⟨phys', flags'⟩, hP'⟩ := Option.ne_none_iff_exists'.1 hP
    have hread := h.read_leaf hT
    rw [hP'] at hread
    have hst : s.stat page (tableIndex va 0) ≠ .invalid := by
      refine h.stat_ne hT _ (tableIndex_lt va 0) ?_
      rw [tableIndex_eq, region_split, region_zero]
      exact hP
    rw [Memory.mapAt]
    simp only [hread, PteFormat.leafWord, hF.present_leaf (h.pageOk hP'),
      s.status_eq (hw 0 (Nat.le_refl _) _ hT), if_true, Option.bind_eq_bind, Option.bind_some, ne_eq, hst, not_false_eq_true]
  | level + 1, page, hw, hT, hle => by
    obtain ⟨child, hc⟩ := Option.ne_none_iff_exists'.1 (h.tables_of_page (l := level) hP (by omega))
    have hok := h.frameOk hc
    have hread := h.read_table hlow hT
    rw [hc] at hread
    rw [Memory.mapAt]
    simp only [hread, PteFormat.tableWord, hF.present_table hok, hF.not_leaf_table hok, hF.phys_table hok,
      (hw.lower _ (Nat.le_refl _) _ hc).lockPage, Nat.add_one_ne_zero, if_false, Bool.not_true, Bool.false_eq_true, Option.bind_eq_bind,
      Option.bind_some]
    exact mapAt_blocked hF h hlow hP phys flags level hw.lower hc (by omega)

end Walk

/-! ## Mapping -/

/-- Tables below level `l` that the walk of page `v` lacks. -/
def missing (T : Tables) (v : Nat) : (l : Nat) → Nat
  | 0 => 0
  | l + 1 => match T l (region (l + 1) v) with
    | none => l + 1
    | some _ => missing T v l

theorem missing_eq_of_none {T : Tables} {v : Nat} : ∀ {l : Nat}, (∀ k < l, T k (region (k + 1) v) = none) →
    missing T v l = l
  | 0, _ => rfl
  | l + 1, h => by
    rw [missing, h l (Nat.lt_succ_self l)]

/-- Only tables, and allocations of others, carry metadata. -/
def Clean (s : Memory) (T : Tables) (other : List Extent) : Prop :=
  ∀ d, s.metadata d ≠ none → (∃ l p f, T l p = some f ∧ f / pageSize = d) ∨ ∃ e ∈ other, e.Covers d

section Map

variable {F : PteFormat} {E : Nat → Prop} {root : Nat} {high : Nat → Nat} {s s' : Memory} {T T' : Tables} {P P' : Pages} {va : Nat}
  {bound : Nat} {frames new : List Nat} {other : List Extent}

/-- The tables `T` and the memory `s` grew by the tables `new` on the walk of page `v`, below level `level`. -/
structure Grown (bound : Nat) (other : List Extent) (v level : Nat) (s : Memory) (T : Tables) (frames : List Nat)
    (s' : Memory) (T' : Tables) (new : List Nat) : Prop where
  pool : Pool bound s'.frames (new ++ frames) other
  free : s'.frames.freeFrames + new.length = s.frames.freeFrames
  keep : ∀ {l p f : Nat}, T l p = some f → T' l p = some f
  old_or_new : ∀ {l p f : Nat}, T' l p = some f → T l p = some f ∨ f ∈ new ∧ l < level ∧ p = region (l + 1) v
  new_table : ∀ f ∈ new, ∃ l p, T' l p = some f
  mem_eq : ∀ f, f ∉ new → (∀ l p, T l p ≠ some f) → s'.mem f = s.mem f
  meta_eq : ∀ d, (∀ l p f, T' l p = some f → f / pageSize ≠ d) → s'.metadata d = s.metadata d

theorem pool_fresh {child : Nat} {a : FrameAllocator} (hp : Pool bound a (child :: frames) other)
    (hT : ∀ {l p f : Nat}, T l p = some f → f ∈ frames) (l p : Nat) : T l p ≠ some child := by
  intro h
  exact (List.nodup_cons.1 hp.nodup).1 (hT h)

/-- A frame of the pool is not covered by another allocation. -/
theorem pool_not_covers {p : Nat} {a : FrameAllocator} (hp : Pool bound a frames other) (hmem : p ∈ frames)
    {e : Extent} (he : e ∈ other) : ¬ e.Covers (p / pageSize) := by
  intro hc
  have hd := (List.pairwise_append.1 hp.inv.disjoint).2.2 (single p) (List.mem_map_of_mem hmem) e he
  refine hd (p / pageSize) ⟨⟨Nat.le_refl _, ?_⟩, hc⟩
  rw [size_single]
  exact Nat.lt_succ_self _

/-- No table on a walk exists below a missing one. -/
theorem Rep.none_of_none_above (h : Rep F E root high s T P) {v l k : Nat} (hnone : T l (region (l + 1) v) = none)
    (hkl : k ≤ l) (hl : l ≤ F.top) : T k (region (k + 1) v) = none := by
  by_contra hne
  obtain ⟨j, rfl⟩ := Nat.exists_eq_add_of_le hkl
  exact h.tables_above hne j hl hnone

/-- A frame that nobody held carries no metadata. -/
theorem Clean.metadata_eq_none {child : Nat} {a : FrameAllocator} (hclean : Clean s T other)
    (hp : Pool bound a (child :: frames) other) (hT : ∀ {l p f : Nat}, T l p = some f → f ∈ frames) :
    s.metadata (child / pageSize) = none := by
  by_contra hne
  rcases hclean _ hne with ⟨l, p, f, hf, hd⟩ | ⟨e, he, hc⟩
  · have hne' : f ≠ child := by rintro rfl; exact pool_fresh hp hT l p hf
    have hf' := hp.placed (List.mem_cons_of_mem _ (hT hf))
    have hc' := hp.placed (List.mem_cons_self ..)
    exact div_ne_of_aligned hf'.1 hc'.1 hne' hd
  · exact pool_not_covers hp (List.mem_cons_self ..) he hc

/-- A new table is empty, and the old ones are as before. -/
theorem Fresh.addTable {child l k : Nat} (hfresh : Fresh s T P) (hmeta : s'.metadata = s.metadata)
    (hnone : s.metadata (child / pageSize) = none) : Fresh s' (T.set l k (some child)) P := by
  intro l' p f hf i hi hP
  have hstat : s'.stat f i = s.stat f i := by rw [Memory.stat, Memory.stat, hmeta]
  rw [hstat]
  by_cases hk : l' = l ∧ p = k
  · obtain ⟨rfl, rfl⟩ := hk
    rw [Tables.set_self] at hf
    cases hf
    rw [Memory.stat, hnone]
  · rw [Tables.set_of_ne T _ hk] at hf
    exact hfresh hf i hi hP

/-- The walk below a table that was linked in, seen from the table above. -/
theorem Grown.link {s₁ : Memory} {v level page i child e : Nat}
    (hg : Grown bound other v level s₁ (T.set level (region (level + 1) v) (some child)) (child :: frames) s' T' new)
    (hpage : T (level + 1) (region (level + 2) v) = some page) (hc : T level (region (level + 1) v) = none)
    (hmem : ∀ f j, s₁.mem f j = if f = page ∧ j = i then e else if f = child then 0 else s.mem f j)
    (hmeta : s₁.metadata = s.metadata) (hfree : s₁.frames.freeFrames + 1 = s.frames.freeFrames) :
    Grown bound other v (level + 1) s T frames s' T' (new ++ [child]) where
  pool := by rw [List.append_assoc]; exact hg.pool
  free := by
    have := hg.free
    rw [List.length_append, List.length_singleton]
    omega
  keep := fun hf => hg.keep (Tables.set_keep hc hf)
  old_or_new := by
    intro l p f hf
    rcases hg.old_or_new hf with hf | ⟨hn, hl, hp⟩
    · rcases Tables.set_some_cases hf with hf | ⟨rfl, rfl, rfl⟩
      · exact Or.inl hf
      · exact Or.inr ⟨by simp, by omega, rfl⟩
    · exact Or.inr ⟨by simp [hn], by omega, hp⟩
  new_table := by
    intro f hf
    rcases List.mem_append.1 hf with hf | hf
    · exact hg.new_table f hf
    · obtain rfl := List.mem_singleton.1 hf
      exact ⟨_, _, hg.keep (Tables.set_self ..)⟩
  mem_eq := by
    intro f hf hTf
    rw [List.mem_append, not_or, List.mem_singleton] at hf
    rw [hg.mem_eq f hf.1]
    · funext j
      rw [hmem, if_neg (by rintro ⟨rfl, -⟩; exact hTf _ _ hpage), if_neg hf.2]
    · intro l p hf'
      rcases Tables.set_some_cases hf' with hf' | ⟨he, -, -⟩
      · exact hTf _ _ hf'
      · exact hf.2 he
  meta_eq := fun d hd => by rw [hg.meta_eq d hd, hmeta]

/-- A page whose lock the code takes has a descriptor: every frame of the pool does, or the code would have panicked. -/
theorem tableOk_of_bind {α : Type} {page : Nat} {a : FrameAllocator} {k : Unit → Option α} (hp : Pool bound a frames other)
    (hmem : page ∈ frames) (h : bound ≤ maxDescriptors ∨ (Memory.lockPage page).bind k ≠ none) : TableOk page := by
  rcases h with hb | hne
  · have := hp.placed hmem
    exact ⟨this.1, by omega⟩
  · apply tableOk_of_lockPage
    intro hnone
    rw [hnone] at hne
    exact hne rfl

/-- The leaf of a page is written, and its status. -/
theorem Rep.writeLeaf (hF : F.Lawful) (h : Rep F E root high s T P) {page : Nat} (hpage : T 0 (region 1 (va / pageSize)) = some page)
    (hok : TableOk page) (x : Option (Nat × MappingFlags)) (hx : ∀ phys flags, x = some (phys, flags) → FrameOk phys)
    (st : PageStatus) (hst : st = .invalid ↔ x = none) (hs' : s' = { s.setEntry page (tableIndex va 0) (F.leafWord x) with
      metadata := Function.update s.metadata (page / pageSize)
        (some (Function.update ((s.metadata (page / pageSize)).getD fun _ => .invalid) (tableIndex va 0) st)) }) :
    Rep F E root high s' T (Function.update P (va / pageSize) x) ∧
      (∀ f, (∀ l p, T l p ≠ some f) → s'.mem f = s.mem f) ∧
      (∀ d, (∀ l p f, T l p = some f → f / pageSize ≠ d) → s'.metadata d = s.metadata d) ∧
      (Fresh s T P → Clean s T other → Fresh s' T (Function.update P (va / pageSize) x) ∧ Clean s' T other) := by
  have hi := tableIndex_lt va 0
  have hkey : region 1 (va / pageSize) * 512 + tableIndex va 0 = va / pageSize := by
    rw [tableIndex_eq, region_split, region_zero]
  have hstat : ∀ {f : Nat} (j : Nat), FrameOk f → s'.stat f j = if f = page ∧ j = tableIndex va 0 then st else s.stat f j :=
    fun j hf => stat_update s hok.1 hf.1 _ _ _ (by rw [hs'])
  have hmeta : ∀ d, d ≠ page / pageSize → s'.metadata d = s.metadata d := fun d hd => by
    rw [hs']
    exact Function.update_of_ne hd _ _
  refine ⟨?_, fun f hf => ?_, fun d hd => hmeta d (Ne.symm (hd _ _ _ hpage)), fun hfresh hclean => ⟨?_, fun d hd => ?_⟩⟩
  · have := h.setLeaf hpage hi hF.top_pos hx (fun f j => by rw [hs']; exact mem_setEntry s page _ _ f j)
      (fun f j hf hne => (hstat j hf).trans (if_neg hne))
      fun hne => by rw [hstat _ hok.frameOk, if_pos ⟨rfl, rfl⟩]; exact fun hinv => hne (hst.1 hinv)
    rwa [hkey] at this
  · rw [hs']
    exact Function.update_of_ne (by rintro rfl; exact hf _ _ hpage) _ _
  · intro l p f hf i hi' hnone
    rw [hstat i (h.frameOk hf)]
    split
    · rename_i hat
      obtain ⟨rfl, rfl⟩ := hat
      obtain ⟨rfl, rfl⟩ := h.inj hf hpage
      have := hnone rfl
      rw [hkey, Function.update_self] at this
      exact hst.2 this
    · rename_i hne
      refine hfresh hf i hi' fun hl => ?_
      have hnone' := hnone hl
      rwa [Function.update_of_ne] at hnone'
      intro hk
      subst hl
      rw [← hkey] at hk
      obtain ⟨rfl, rfl⟩ := key_inj hi hi' hk
      rw [hpage] at hf
      exact hne ⟨(Option.some.inj hf).symm, rfl⟩
  · by_cases hdp : d = page / pageSize
    · exact Or.inl ⟨_, _, page, hpage, hdp.symm⟩
    · exact hclean d (hmeta d hdp ▸ hd)

/-- The walk of an unmapped page: the missing tables are allocated from the top down, then the leaf is written. -/
theorem mapAt_spec (hF : F.Lawful) {phys : Nat} (hphys : FrameOk phys) (flags : MappingFlags)
    (hlow : Own F E (va / pageSize)) (hP : P (va / pageSize) = none) (hb : bound ≤ 2 ^ 36) :
    ∀ (level : Nat) {page : Nat} {s : Memory} {T : Tables} {frames : List Nat}, Rep F E root high s T P →
      Pool bound s.frames frames other → (∀ {l p f : Nat}, T l p = some f → f ∈ frames) →
      T level (region (level + 1) (va / pageSize)) = some page → TableOk page →
      (bound ≤ maxDescriptors ∨ Memory.mapAt F va phys flags 0 level page s ≠ none) →
      ∃ r s' T' P' new, Memory.mapAt F va phys flags 0 level page s = some (r, s') ∧ Rep F E root high s' T' P' ∧
        Grown bound other (va / pageSize) level s T frames s' T' new ∧
        new.length = min (missing T (va / pageSize) level) s.frames.freeFrames ∧
        (r = .ok () ∧ missing T (va / pageSize) level ≤ s.frames.freeFrames ∧
            P' = Function.update P (va / pageSize) (some (phys, flags)) ∨
          r = .error .outOfMemory ∧ s.frames.freeFrames < missing T (va / pageSize) level ∧ P' = P) ∧
        (Fresh s T P → Clean s T other → Fresh s' T' P' ∧ Clean s' T' other)
  | 0, page, s, T, frames, h, hpool, hT, hpage, hok, _ => by
    have hread := h.read_leaf hpage
    rw [hP] at hread
    obtain ⟨hrep, hmem, hmeta, hfresh⟩ := h.writeLeaf hF hpage hok (some (phys, flags))
      (fun _ _ he => by cases he; exact hphys) (.mapped phys flags (span 0)) (by simp) rfl
    refine ⟨.ok (), _, T, _, [], ?_, hrep, ⟨hpool, rfl, id, Or.inl, List.forall_mem_nil _, fun f _ => hmem f, hmeta⟩,
      by simp [missing], Or.inl ⟨rfl, Nat.zero_le _, rfl⟩, hfresh⟩
    rw [Memory.mapAt]
    simp only [hread, PteFormat.leafWord, hF.present_zero, if_true, Bool.false_eq_true, if_false, Option.bind_eq_bind,
      Option.bind_some, ne_eq, not_true_eq_false]
    rw [hok.setStatus]
    rfl
  | level + 1, page, s, T, frames, h, hpool, hT, hpage, _, hop => by
    have hread := h.read_table hlow hpage
    have hltop := (h.bounded hpage).1
    have hi := tableIndex_lt va (level + 1)
    have hkey : region (level + 2) (va / pageSize) * 512 + tableIndex va (level + 1) =
        region (level + 1) (va / pageSize) := by rw [tableIndex_eq, region_split]
    have hhalf : level + 1 = F.top → E (tableIndex va (level + 1)) := fun hl => by
      rw [tableIndex_eq]; exact hlow.index_mem hl
    cases hc : T level (region (level + 1) (va / pageSize)) with
    | some child =>
      have hcok := h.frameOk hc
      have hstep : Memory.mapAt F va phys flags 0 (level + 1) page s =
          (Memory.lockPage child).bind fun _ => Memory.mapAt F va phys flags 0 level child s := by
        rw [hc] at hread
        rw [Memory.mapAt]
        simp only [hread, PteFormat.tableWord, hF.present_table hcok, hF.not_leaf_table hcok, hF.phys_table hcok,
          Nat.add_one_ne_zero, if_false, Bool.not_true, Bool.false_eq_true, Option.bind_eq_bind]
      rw [hstep] at hop ⊢
      have hok := tableOk_of_bind hpool (hT hc) hop
      simp only [hok.lockPage, Option.bind_some] at hop ⊢
      obtain ⟨r, s', T', P', new, he, hrep, hg, hlen, hres, hclean⟩ :=
        mapAt_spec hF hphys flags hlow hP hb level h hpool hT hc hok hop
      refine ⟨r, s', T', P', new, he, hrep, ?_, ?_, ?_, hclean⟩
      · refine { hg with old_or_new := fun hf => (hg.old_or_new hf).imp_right fun hn => ⟨hn.1, by omega, hn.2.2⟩ }
      · rw [missing, hc]; exact hlen
      · rw [missing, hc]; exact hres
    | none =>
      rw [hc] at hread
      have hmiss : missing T (va / pageSize) (level + 1) = level + 1 := by rw [missing, hc]
      rw [hmiss]
      rcases allocFrame_pool hpool with ⟨child, a, hal, hpool₁, hfree⟩ | ⟨hal, hzero⟩
      · -- a table is linked in, and the walk goes on in it
        have hchild := FrameOk.of_placed hb (hpool₁.placed (List.mem_cons_self ..))
        have hfr : ∀ l p, T l p ≠ some child := pool_fresh hpool₁ hT
        let s₁ : Memory := ({ s with frames := a }.zeroPage child).setEntry page (tableIndex va (level + 1))
          (F.tableEntry child)
        have hmem₁ : ∀ f j, s₁.mem f j = if f = page ∧ j = tableIndex va (level + 1) then F.tableEntry child
            else if f = child then 0 else s.mem f j := fun f j => by rw [mem_setEntry, mem_zeroPage]
        have h₁ : Rep F E root high s₁ (T.set level (region (level + 1) (va / pageSize)) (some child)) P := by
          have := h.addTable hpage hi hhalf (by rw [hkey]; exact hc) hchild hfr hmem₁ rfl
          rwa [hkey] at this
        have hT₁ : ∀ {l p f : Nat}, T.set level (region (level + 1) (va / pageSize)) (some child) l p = some f →
            f ∈ child :: frames := by
          intro l p f hf
          rcases Tables.set_some_cases hf with hf | ⟨rfl, -, -⟩
          · exact List.mem_cons_of_mem _ (hT hf)
          · exact List.mem_cons_self ..
        have hmiss₁ : missing (T.set level (region (level + 1) (va / pageSize)) (some child)) (va / pageSize) level =
            level := by
          apply missing_eq_of_none
          intro k hk
          rw [Tables.set_of_ne T _ (by omega)]
          exact h.none_of_none_above hc (by omega) (by omega)
        have hstep : Memory.mapAt F va phys flags 0 (level + 1) page s =
            (Memory.lockPage child).bind fun _ => Memory.mapAt F va phys flags 0 level child s₁ := by
          rw [Memory.mapAt]
          simp only [hread, PteFormat.tableWord, hF.present_zero, hal, Nat.add_one_ne_zero, if_false, Bool.not_false,
            if_true, Option.bind_eq_bind, Option.bind_some]
          rfl
        rw [hstep] at hop ⊢
        have hok := tableOk_of_bind hpool₁ (List.mem_cons_self ..) hop
        simp only [hok.lockPage, Option.bind_some] at hop ⊢
        obtain ⟨r, s', T', P', new, he, hrep, hg, hlen, hres, hclean⟩ :=
          mapAt_spec hF hphys flags hlow hP hb level h₁ hpool₁ hT₁ (Tables.set_self ..) hok hop
        rw [hmiss₁, show s₁.frames = a from rfl] at hlen hres
        refine ⟨r, s', T', P', new ++ [child], he, hrep, hg.link hpage hc hmem₁ rfl hfree, ?_, ?_, ?_⟩
        · rw [List.length_append, List.length_singleton]; omega
        · rcases hres with ⟨hr, hle, hP'⟩ | ⟨hr, hlt, hP'⟩
          · exact Or.inl ⟨hr, by omega, hP'⟩
          · exact Or.inr ⟨hr, by omega, hP'⟩
        · intro hfresh hcl
          refine hclean (hfresh.addTable rfl (hcl.metadata_eq_none hpool₁ hT)) fun d hd => ?_
          rcases hcl d hd with ⟨l, p, f, hf, hd'⟩ | he'
          · exact Or.inl ⟨l, p, f, Tables.set_keep hc hf, hd'⟩
          · exact Or.inr he'
      · refine ⟨.error .outOfMemory, s, T, P, [], ?_, h, ⟨hpool, rfl, id, Or.inl, List.forall_mem_nil _,
          fun _ _ _ => rfl, fun _ _ => rfl⟩,
          by simp [hzero], Or.inr ⟨rfl, by omega, rfl⟩, fun h₁ h₂ => ⟨h₁, h₂⟩⟩
        rw [Memory.mapAt]
        simp only [hread, PteFormat.tableWord, hF.present_zero, hal, Nat.add_one_ne_zero, if_false, Bool.not_false,
          if_true, Option.bind_eq_bind, Option.bind_some]

end Map

/-! ## Unmapping -/

/-- Every table below level `level` has a mapped page under it. -/
def Tight (level : Nat) (T : Tables) (P : Pages) : Prop :=
  ∀ {l p f : Nat}, l < level → T l p = some f → ∃ w, P w ≠ none ∧ region (l + 1) w = p

section Unmap

variable {F : PteFormat} {E : Nat → Prop} {root : Nat} {high : Nat → Nat} {s s' : Memory} {T T' : Tables} {P : Pages} {va : Nat}
  {bound : Nat} {frames frames' freed : List Nat} {other : List Extent}

/-- The tables `T` and the memory `s` lost the tables `freed` on the walk of page `v`, below level `level`. -/
structure Shrunk (bound : Nat) (other : List Extent) (v level : Nat) (s : Memory) (T : Tables) (frames : List Nat)
    (s' : Memory) (T' : Tables) (freed frames' : List Nat) : Prop where
  pool : Pool bound s'.frames frames' other
  perm : frames.Perm (freed ++ frames')
  free : s'.frames.freeFrames = s.frames.freeFrames + freed.length
  sub : ∀ {l p f : Nat}, T' l p = some f → T l p = some f
  kept_or_freed : ∀ {l p f : Nat}, T l p = some f → T' l p = some f ∨ f ∈ freed ∧ l < level ∧ p = region (l + 1) v
  gone : ∀ {l p f : Nat}, T' l p = some f → f ∉ freed
  freed_table : ∀ f ∈ freed, ∃ l p, T l p = some f
  mem_eq : ∀ f, (∀ l p, T l p ≠ some f) → s'.mem f = s.mem f
  meta_eq : ∀ d, (∀ l p f, T l p = some f → f / pageSize ≠ d) → s'.metadata d = s.metadata d

/-- A page lies inside its region. -/
theorem region_bounds (l v : Nat) :
    region l v * span l ≤ v * pageSize ∧ v * pageSize + pageSize ≤ region l v * span l + span l := by
  have h₁ : region l v * 512 ^ l ≤ v := Nat.div_mul_le_self v _
  have h₂ : v < region l v * 512 ^ l + 512 ^ l := Nat.lt_div_mul_add (Nat.pow_pos (by decide))
  rw [span_eq]
  constructor
  · calc region l v * (pageSize * 512 ^ l) = region l v * 512 ^ l * pageSize := by ring
      _ ≤ v * pageSize := Nat.mul_le_mul_right _ h₁
  · calc v * pageSize + pageSize = (v + 1) * pageSize := by ring
      _ ≤ (region l v * 512 ^ l + 512 ^ l) * pageSize := Nat.mul_le_mul_right _ h₂
      _ = region l v * (pageSize * 512 ^ l) + pageSize * 512 ^ l := by ring

/-- Where an entry's region starts, from where its table's region starts. -/
theorem entry_start (l v : Nat) : region (l + 1) v * span (l + 1) + region l v % 512 * span l = region l v * span l := by
  rw [span_eq, span_eq, Nat.pow_succ]
  calc region (l + 1) v * (pageSize * (512 ^ l * 512)) + region l v % 512 * (pageSize * 512 ^ l)
      = (region (l + 1) v * 512 + region l v % 512) * (pageSize * 512 ^ l) := by ring
    _ = region l v * (pageSize * 512 ^ l) := by rw [region_split]

/-- A range of one page has one entry at each level. -/
theorem unmapIn_eq (F : PteFormat) (level page base : Nat) (halign : va % pageSize = 0) (st : Memory × Nat) :
    Memory.unmapIn F level page base va (va + pageSize) st =
      Memory.unmapEntry F (match level with
        | 0 => fun _ _ _ _ _ => none
        | level' + 1 => Memory.unmapIn F level') level page base va (va + pageSize) st (tableIndex va level) := by
  have hlast : tableIndex (va + pageSize - 1) level = tableIndex va level := by
    rw [tableIndex_eq, tableIndex_eq, show (va + pageSize - 1) / pageSize = va / pageSize by
      unfold pageSize at *; omega]
  cases level <;>
  · simp only [Memory.unmapIn, hlast, Nat.add_sub_cancel_left, List.range'_one, List.foldlM_cons, List.foldlM_nil]
    exact bind_pure _

/-- The leaf of a mapped page is cleared. -/
theorem unmapLeaf_spec (hF : F.Lawful) {page phys : Nat} {flags : MappingFlags} (hP : P (va / pageSize) = some (phys, flags))
    (henc : F.encodes flags) (h : Rep F E root high s T P) (hpool : Pool bound s.frames frames other)
    (hpage : T 0 (region 1 (va / pageSize)) = some page) (hok : TableOk page) (base n : Nat)
    (recur : Nat → Nat → Nat → Nat → Memory × Nat → Option (Memory × Nat)) :
    ∃ s', Memory.unmapEntry F recur 0 page base va (va + pageSize) (s, n) (tableIndex va 0) = some (s', n + 1) ∧
      Rep F E root high s' T (Function.update P (va / pageSize) none) ∧
      Shrunk bound other (va / pageSize) 0 s T frames s' T [] frames ∧
      (Fresh s T P → Clean s T other → Fresh s' T (Function.update P (va / pageSize) none) ∧ Clean s' T other) := by
  have hphys := h.pageOk hP
  have hread := h.read_leaf hpage
  rw [hP] at hread
  obtain ⟨hrep, hmem, hmeta, hfresh⟩ := h.writeLeaf hF hpage hok none (by simp) .invalid (by simp) rfl
  refine ⟨_, ?_, hrep, ⟨hpool, List.Perm.refl _, rfl, id, Or.inl, fun _ => List.not_mem_nil, List.forall_mem_nil _, hmem, hmeta⟩,
    hfresh⟩
  simp only [Memory.unmapEntry, hread, PteFormat.leafWord, hF.present_leaf hphys, hF.isLeaf_leaf hphys, henc,
    Bool.not_true, Bool.false_eq_true, if_false, if_true, BEq.rfl, Bool.or_true, hok.setStatus, Option.bind_eq_bind,
    Option.bind_some]
  rfl

/-- A table on the walk that is not empty has a page under it, when those below it do. -/
theorem Tight.of_entry {level page j v : Nat} (h : Rep F E root high s T P) (htight : Tight level T P)
    (hpage : T level (region (level + 1) v) = some page) (hl : level < F.top) (hj : j < 512) (hne : s.mem page j ≠ 0) :
    ∃ w, P w ≠ none ∧ region (level + 1) w = region (level + 1) v := by
  cases level with
  | zero =>
    rw [h.leaf hpage j hj] at hne
    refine ⟨region 1 v * 512 + j, ?_, ?_⟩
    · intro hnone
      rw [Nat.zero_add, hnone] at hne
      exact hne rfl
    · show region 1 _ = region 1 v
      rw [region_succ, region_zero]
      omega
  | succ level =>
    rw [h.entry hpage j hj (by omega)] at hne
    cases hc : T level (region (level + 1 + 1) v * 512 + j) with
    | none => rw [hc] at hne; exact absurd rfl hne
    | some child =>
      obtain ⟨w, hw, hr⟩ := htight (Nat.lt_succ_self level) hc
      refine ⟨w, hw, ?_⟩
      rw [region_succ, hr]
      omega

/-- A table off the walk of an unmapped page keeps a page under it. -/
theorem Tight.off_walk {l p f v : Nat} (htight : Tight F.top T P) (hl : l < F.top) (hf : T l p = some f)
    (hp : p ≠ region (l + 1) v) : ∃ w, Function.update P v none w ≠ none ∧ region (l + 1) w = p := by
  obtain ⟨w, hw, hr⟩ := htight hl hf
  refine ⟨w, ?_, hr⟩
  rw [Function.update_of_ne]
  · exact hw
  · rintro rfl
    exact hp hr.symm

/-- An empty table that is unlinked and freed, seen from the table above. -/
theorem Shrunk.unlink {s₁ : Memory} {T₁ : Tables} {frames₁ : List Nat} {v level page child i : Nat} {a : FrameAllocator}
    (hsh : Shrunk bound other v level s T frames s₁ T₁ freed frames₁) (hc : T level (region (level + 1) v) = some child)
    (hc₁ : T₁ level (region (level + 1) v) = some child) (hpage : T (level + 1) (region (level + 2) v) = some page)
    (hinj : ∀ {l p : Nat}, T₁ l p = some child → l = level ∧ p = region (level + 1) v) (hmem : child ∈ frames₁)
    (hpool : Pool bound a (frames₁.erase child) other) (hfree : a.freeFrames = s₁.frames.freeFrames + 1)
    (hs' : s' = { s₁.setEntry page i 0 with
      frames := a, metadata := Function.update s₁.metadata (child / pageSize) none }) :
    Shrunk bound other v (level + 1) s T frames s' (T₁.set level (region (level + 1) v) none) (child :: freed)
      (frames₁.erase child) where
  pool := by rw [hs']; exact hpool
  perm := by
    refine hsh.perm.trans ?_
    calc List.Perm (freed ++ frames₁) (freed ++ child :: frames₁.erase child) :=
          (List.perm_cons_erase hmem).append_left _
      List.Perm _ (child :: freed ++ frames₁.erase child) := List.perm_middle
  free := by
    have := hsh.free
    rw [hs', List.length_cons]
    show a.freeFrames = _
    omega
  sub := fun hf => hsh.sub (Tables.set_none_cases hf).2
  kept_or_freed := by
    intro l p f hf
    by_cases hk : l = level ∧ p = region (level + 1) v
    · obtain ⟨rfl, rfl⟩ := hk
      rw [hc] at hf
      cases hf
      exact Or.inr ⟨List.mem_cons_self .., Nat.lt_succ_self _, rfl⟩
    · rw [Tables.set_of_ne T₁ _ hk]
      exact (hsh.kept_or_freed hf).imp_right fun hr => ⟨List.mem_cons_of_mem _ hr.1, by omega, hr.2.2⟩
  gone := by
    intro l p f hset
    obtain ⟨hk, hf⟩ := Tables.set_none_cases hset
    rw [List.mem_cons, not_or]
    refine ⟨?_, hsh.gone hf⟩
    rintro rfl
    exact hk (hinj hf)
  freed_table := by
    intro f hf
    rcases List.mem_cons.1 hf with rfl | hf
    · exact ⟨_, _, hc⟩
    · exact hsh.freed_table f hf
  mem_eq := by
    intro f hf
    rw [hs']
    refine Eq.trans ?_ (hsh.mem_eq f hf)
    exact Function.update_of_ne (by rintro rfl; exact hf _ _ hpage) _ _
  meta_eq := by
    intro d hd
    rw [hs']
    refine Eq.trans ?_ (hsh.meta_eq d hd)
    exact Function.update_of_ne (Ne.symm (hd _ _ _ hc)) _ _

/-- Below an empty table the walk has no table. -/
theorem Rep.missing_of_empty (hF : F.Lawful) (h : Rep F E root high s T P) {level child v : Nat}
    (hc : T level (region (level + 1) v) = some child) (hzero : ∀ j < 512, s.mem child j = 0) (hl : level < F.top) :
    missing T v level = level := by
  cases level with
  | zero => rfl
  | succ level =>
    have he := h.entry hc (region (level + 1) v % 512) (Nat.mod_lt _ (by decide)) (by omega)
    rw [hzero _ (Nat.mod_lt _ (by decide)), region_split] at he
    cases hk : T level (region (level + 1) v) with
    | none => rw [missing, hk]
    | some f =>
      rw [hk] at he
      exact absurd he.symm (hF.table_ne_zero (h.frameOk hk))

/-- One step of the loop on a walk, up to the check whether the child is empty. -/
theorem unmapIn_step (hF : F.Lawful) (h : Rep F E root high s T P) (hlow : Own F E (va / pageSize)) (halign : va % pageSize = 0)
    {level page child n n₁ : Nat} {s₁ : Memory} (hpage : T (level + 1) (region (level + 2) (va / pageSize)) = some page)
    (hc : T level (region (level + 1) (va / pageSize)) = some child) (hok : TableOk child)
    (he : Memory.unmapIn F level child (region (level + 1) (va / pageSize) * span (level + 1)) va (va + pageSize) (s, n) =
      some (s₁, n₁)) :
    Memory.unmapIn F (level + 1) page (region (level + 2) (va / pageSize) * span (level + 2)) va (va + pageSize) (s, n) =
      if (List.range ptEntries).all fun i => s₁.mem child i == 0 then do
        let s ← s₁.dropMetadata child
        let a ← s.frames.freeFramesAt child 1
        some ({ s with frames := a }.setEntry page (tableIndex va (level + 1)) 0, n₁)
      else some (s₁, n₁) := by
  have hread := h.read_table hlow hpage
  rw [hc] at hread
  have hva : va / pageSize * pageSize = va := by unfold pageSize at *; omega
  obtain ⟨hlo, hhi⟩ := region_bounds (level + 1) (va / pageSize)
  rw [hva] at hlo hhi
  have hstart : region (level + 2) (va / pageSize) * span (level + 2) + tableIndex va (level + 1) * span (level + 1) =
      region (level + 1) (va / pageSize) * span (level + 1) := by
    rw [tableIndex_eq]
    exact entry_start (level + 1) (va / pageSize)
  rw [unmapIn_eq F (level + 1) page _ halign]
  simp only [Memory.unmapEntry, hread, PteFormat.tableWord, hF.present_table hok.frameOk,
    hF.not_leaf_table hok.frameOk, hF.phys_table hok.frameOk, hok.lockPage, hstart, Nat.max_eq_left hlo,
    Nat.min_eq_left hhi, he, Bool.not_true, Bool.false_eq_true, if_false, Nat.succ_pos, gt_iff_lt, if_true,
    Option.bind_eq_bind, Option.bind_some]

/-- The page is unmapped, and the tables of its walk that became empty are freed from the bottom up. -/
theorem unmapIn_spec (hF : F.Lawful) (hlow : Own F E (va / pageSize)) (halign : va % pageSize = 0) {phys : Nat}
    {flags : MappingFlags} (hP : P (va / pageSize) = some (phys, flags)) (henc : F.encodes flags) (h : Rep F E root high s T P)
    (hpool : Pool bound s.frames frames other) (hT : ∀ {l p f : Nat}, T l p = some f → f ∈ frames) (n : Nat) :
    ∀ (level : Nat) {page : Nat}, WalkOk T (va / pageSize) level →
      T level (region (level + 1) (va / pageSize)) = some page → level ≤ F.top →
      ∃ s' T' freed frames', Memory.unmapIn F level page (region (level + 1) (va / pageSize) * span (level + 1)) va
          (va + pageSize) (s, n) = some (s', n + 1) ∧
        Rep F E root high s' T' (Function.update P (va / pageSize) none) ∧
        Shrunk bound other (va / pageSize) level s T frames s' T' freed frames' ∧
        freed.length = missing T' (va / pageSize) level ∧
        (Tight F.top T P → Tight level T' (Function.update P (va / pageSize) none)) ∧
        (Fresh s T P → Clean s T other →
          Fresh s' T' (Function.update P (va / pageSize) none) ∧ Clean s' T' other)
  | 0, page, hw, hpage, _ => by
    obtain ⟨s', he, hrep, hsh, hclean⟩ := unmapLeaf_spec hF hP henc h hpool hpage (hw 0 (Nat.le_refl _) _ hpage)
      (region 1 (va / pageSize) * span 1) n fun _ _ _ _ _ => none
    refine ⟨s', T, [], frames, ?_, hrep, hsh, rfl, fun _ => nofun, hclean⟩
    rw [unmapIn_eq F 0 page _ halign]
    exact he
  | level + 1, page, hw, hpage, hle => by
    obtain ⟨child, hc⟩ := Option.ne_none_iff_exists'.1 (h.tables_of_page (l := level) (by rw [hP]; simp) (by omega))
    obtain ⟨s₁, T₁, freed, frames₁, he, hrep, hsh, hlen, htight, hclean⟩ :=
      unmapIn_spec hF hlow halign hP henc h hpool hT n level hw.lower hc (by omega)
    have hok := hw.lower _ (Nat.le_refl _) _ hc
    have hpage₁ : T₁ (level + 1) (region (level + 2) (va / pageSize)) = some page :=
      (hsh.kept_or_freed hpage).resolve_right fun hr => by omega
    have hc₁ : T₁ level (region (level + 1) (va / pageSize)) = some child :=
      (hsh.kept_or_freed hc).resolve_right fun hr => by omega
    have hstep := unmapIn_step hF h hlow halign hpage hc hok he
    by_cases hempty : (List.range ptEntries).all fun i => s₁.mem child i == 0
    · have hzero : ∀ j < 512, s₁.mem child j = 0 := by
        intro j hj
        have := List.all_eq_true.1 hempty j (List.mem_range.2 hj)
        simpa using this
      have hmem : child ∈ frames₁ :=
        (List.mem_append.1 (hsh.perm.subset (hT hc))).resolve_left (hsh.gone hc₁)
      obtain ⟨a, hfr, hpool', hfree⟩ := freeFrame_pool (hsh.pool.perm (List.perm_cons_erase hmem))
      have hi := tableIndex_lt va (level + 1)
      have hkey : region (level + 2) (va / pageSize) * 512 + tableIndex va (level + 1) =
          region (level + 1) (va / pageSize) := by rw [tableIndex_eq, region_split]
      let s' : Memory := { s₁.setEntry page (tableIndex va (level + 1)) 0 with
        frames := a, metadata := Function.update s₁.metadata (child / pageSize) none }
      have hstat : ∀ f j, FrameOk f → f ≠ child → s'.stat f j = s₁.stat f j := fun f j hf hne =>
        stat_drop s₁ hok.1 hf.1 j hne rfl
      refine ⟨s', T₁.set level (region (level + 1) (va / pageSize)) none, child :: freed, frames₁.erase child, ?_, ?_,
        hsh.unlink hc hc₁ hpage (fun hf => hrep.inj hf hc₁) hmem hpool' hfree rfl, ?_, ?_, ?_⟩
      · rw [hstep, if_pos hempty, hok.dropMetadata]
        simp only [Option.bind_eq_bind, Option.bind_some, hfr]
        rfl
      · have := hrep.removeTable hF hpage₁ hi
          (fun hl => by rw [tableIndex_eq]; exact hlow.index_mem hl) (by rw [hkey]; exact hc₁) hzero
          (fun f j => show s'.mem f j = _ from mem_setEntry s₁ page _ _ f j) hstat
        rwa [hkey] at this
      · rw [missing, Tables.set_self, List.length_cons, hlen, hrep.missing_of_empty hF hc₁ hzero (by omega)]
      · intro ht l p f hl hf
        have hf' := Tables.set_none_cases hf
        rcases Nat.lt_succ_iff_lt_or_eq.1 hl with hl | rfl
        · exact htight ht hl hf'.2
        · exact ht.off_walk (by omega) (hsh.sub hf'.2) fun he => hf'.1 ⟨rfl, he⟩
      · intro hfresh hcl
        obtain ⟨hfresh₁, hcl₁⟩ := hclean hfresh hcl
        constructor
        · intro l p f hf i hi' hnone
          have hf' := Tables.set_none_cases hf
          rw [hstat f i (hrep.frameOk hf'.2) ?_]
          · exact hfresh₁ hf'.2 i hi' hnone
          · rintro rfl
            exact hf'.1 (hrep.inj hf'.2 hc₁)
        · intro d hd
          by_cases hdc : d = child / pageSize
          · exact absurd (hdc ▸ Function.update_self (child / pageSize) none s₁.metadata) hd
          · have hm : s'.metadata d = s₁.metadata d := Function.update_of_ne hdc _ _
            rw [hm] at hd
            rcases hcl₁ d hd with ⟨l, p, f, hf, hfd⟩ | he
            · refine Or.inl ⟨l, p, f, ?_, hfd⟩
              rw [Tables.set_of_ne T₁]
              · exact hf
              · rintro ⟨rfl, rfl⟩
                rw [hc₁] at hf
                cases hf
                exact hdc hfd.symm
            · exact Or.inr he
    · refine ⟨s₁, T₁, freed, frames₁, by rw [hstep, if_neg hempty], hrep, ?_, by rw [missing, hc₁]; exact hlen, ?_, hclean⟩
      · exact { hsh with kept_or_freed := fun hf => (hsh.kept_or_freed hf).imp_right fun hr => ⟨hr.1, by omega, hr.2.2⟩ }
      · intro ht l p f hl hf
        rcases Nat.lt_succ_iff_lt_or_eq.1 hl with hl | rfl
        · exact htight ht hl hf
        · by_cases hp : p = region (l + 1) (va / pageSize)
          · subst hp
            obtain ⟨j, hj, hne⟩ : ∃ j < 512, s₁.mem child j ≠ 0 := by
              by_contra hall
              apply hempty
              rw [List.all_eq_true]
              intro j hj
              by_contra hne
              exact hall ⟨j, List.mem_range.1 hj, by simpa using hne⟩
            exact Tight.of_entry hrep (htight ht) hc₁ (by omega) hj hne
          · exact ht.off_walk (by omega) (hsh.sub hf) hp

end Unmap

/-! ## Address spaces -/

section AddrSpaces

variable {F : PteFormat} {E : Nat → Prop} {root : Nat} {high : Nat → Nat} {s s' : Memory} {T : Tables} {P : Pages} {va : Nat}

theorem tableOk_of_lock {start stop : Nat} (h : AddrSpace.lock F s root start stop ≠ none) : TableOk root := by
  apply tableOk_of_lockPage
  intro hnone
  unfold AddrSpace.lock at h
  cases hl : F.levels - 1 with
  | zero => simp [hl, Memory.lockRange, hnone] at h
  | succ l => simp [hl, Memory.lockRange, hnone] at h

theorem translate_mapped (hF : F.Lawful) (hrep : Rep F E root high s T P) (hlow : Own F E (va / pageSize))
    (hw : WalkOk T (va / pageSize) F.top) {phys : Nat} {flags : MappingFlags} (hP : P (va / pageSize) = some (phys, flags)) :
    AddrSpace.translate F s root va = some (some (phys + va % pageSize)) := by
  have hroot : T F.top (region (F.top + 1) (va / pageSize)) = some root := by
    rw [hlow.region_top]; exact hrep.root_eq
  have hlock : AddrSpace.lock F s root va (va + pageSize) = some () := lockRange_eq hF hrep hlow _ F.top hw hroot
  have hq : s.query F root va = _ := queryAt_mapped hF hrep hlow hP F.top .invalid hw hroot (Nat.le_refl _)
  simp only [AddrSpace.translate, hlock, hq, Option.bind_eq_bind, Option.bind_some]
  rfl

/-- `map` of a page-aligned pair is the walk from the root. -/
theorem map_eq (hF : F.Lawful) (hrep : Rep F E root high s T P) (hlow : Own F E (va / pageSize))
    (hw : WalkOk T (va / pageSize) F.top) (halign : va % pageSize = 0) {phys : Nat} (hphys : FrameOk phys) (flags : MappingFlags) :
    AddrSpace.map F s root va phys flags .page4K = Memory.mapAt F va phys flags 0 F.top root s := by
  have hroot : T F.top (region (F.top + 1) (va / pageSize)) = some root := by
    rw [hlow.region_top]; exact hrep.root_eq
  have hlock : AddrSpace.lock F s root va (va + MapSize.page4K.bytes) = some () :=
    lockRange_eq hF hrep hlow _ F.top hw hroot
  have hspan : span 0 = pageSize := rfl
  simp only [AddrSpace.map, hlock, Memory.cursorMap, MapSize.level, hspan, halign, hphys.1, ne_eq, not_true_eq_false,
    or_self, if_false, Option.bind_eq_bind, Option.bind_some]
  rfl

/-- `unmap` of a mapped page returns its frame. -/
theorem unmap_eq (hF : F.Lawful) (hrep : Rep F E root high s T P) (hlow : Own F E (va / pageSize))
    (hw : WalkOk T (va / pageSize) F.top) (halign : va % pageSize = 0) {phys : Nat} {flags : MappingFlags} (hP : P (va / pageSize) = some (phys, flags))
    {n : Nat} (he : Memory.unmapIn F F.top root 0 va (va + pageSize) (s, 0) = some (s', n)) :
    AddrSpace.unmap F s root va .page4K = some (.ok phys, s') := by
  have hroot : T F.top (region (F.top + 1) (va / pageSize)) = some root := by
    rw [hlow.region_top]; exact hrep.root_eq
  have hlock : AddrSpace.lock F s root va (va + MapSize.page4K.bytes) = some () :=
    lockRange_eq hF hrep hlow _ F.top hw hroot
  have hlt : ¬ va ≥ va + pageSize := by unfold pageSize; omega
  have he' : Memory.unmapIn F (F.levels - 1) root 0 va (va + MapSize.page4K.bytes) (s, 0) = some (s', n) := he
  have hlt' : ¬ va ≥ va + MapSize.page4K.bytes := hlt
  simp only [AddrSpace.unmap, translate_mapped hF hrep hlow hw hP, hlock, Memory.cursorUnmap, if_neg hlt', he',
    Option.bind_eq_bind, Option.bind_some, halign, Nat.add_zero]

end AddrSpaces

end Koros.Mmu
