import Koros.Mmu.Engine

/-!
# Page tables whatever their metadata

`Outline` says nothing about the descriptors, so it also holds of tables in reused frames whose metadata is stale, and the
words are any words: an entry without an access is present on riscv64 and maps nothing. The first `half` entries of the root
are the ones in question.

- `mapAt_outline`, `unmapIn_outline`: what a walk of the engine leaves behind, whether it succeeds or not;
- `walk_outline`: the hardware finds the words that are live.
-/
set_option autoImplicit false

namespace Koros.Mmu

open Koros.Frame

/-- The word of a level-0 entry that maps a page. -/
def PteFormat.live (F : PteFormat) (w : Nat) : Bool := F.entryPresent w && F.entryIsLeaf w 0

/-- Virtual page numbers translated by the first `half` entries of the root. -/
def Below (F : PteFormat) (half v : Nat) : Prop := v < half * 512 ^ F.top

/-- The contents of the frames are the same. -/
def Same (frames : List Nat) (s s' : Memory) : Prop := ∀ f ∈ frames, s'.mem f = s.mem f

namespace Same

variable {frames frames' : List Nat} {s s₁ s₂ : Memory}

theorem refl (frames : List Nat) (s : Memory) : Same frames s s := fun _ _ => rfl

theorem trans (h₁ : Same frames s s₁) (h₂ : Same frames s₁ s₂) : Same frames s s₂ :=
  fun f hf => (h₂ f hf).trans (h₁ f hf)

theorem mono (h : Same frames s s₁) (hsub : ∀ f ∈ frames', f ∈ frames) : Same frames' s s₁ := fun f hf => h f (hsub f hf)

theorem of_update {p : Nat} {x : Nat → Nat} (hp : p ∉ frames) (hmem : s₁.mem = Function.update s.mem p x) :
    Same frames s s₁ := by
  intro f hf
  rw [hmem, Function.update_of_ne (by rintro rfl; exact hp hf)]

end Same

namespace Outline

variable {F : PteFormat} {half root : Nat} {s s' : Memory} {T : Tables} {W : Nat → Nat}

theorem same (h : Outline F (· < half) root s T W) {tables : List Nat} (hT : Lists T tables) (hs : Same tables s s') :
    Outline F (· < half) root s' T W :=
  h.congr fun hf => hs _ ((hT _).2 ⟨_, _, hf⟩)

end Outline

/-! ## Walks -/

section Walk

variable {F : PteFormat} {half root : Nat} {s s' : Memory} {T : Tables} {W : Nat → Nat} {va page : Nat}

theorem Below.region_lt {v : Nat} (h : Below F half v) : region F.top v < half :=
  Nat.div_lt_of_lt_mul (by rw [Nat.mul_comm]; exact h)

theorem Below.region_top {v : Nat} (h : Below F half v) (hhalf : half ≤ 512) : region (F.top + 1) v = 0 := by
  have := h.region_lt
  rw [region_succ]
  omega

theorem Below.index_lt {v l : Nat} (h : Below F half v) (hl : l + 1 = F.top) : region (l + 1) v % 512 < half := by
  have := h.region_lt
  rw [hl]
  exact Nat.lt_of_le_of_lt (Nat.mod_le _ _) this

theorem Outline.read_table (h : Outline F (· < half) root s T W) (hlow : Below F half (va / pageSize)) {l : Nat}
    (hT : T (l + 1) (region (l + 2) (va / pageSize)) = some page) :
    s.mem page (tableIndex va (l + 1)) = F.tableWord (T l (region (l + 1) (va / pageSize))) := by
  rw [tableIndex_eq, h.entry hT _ (Nat.mod_lt _ (by decide)) fun hl => hlow.index_lt hl, region_split]

theorem Outline.read_leaf (h : Outline F (· < half) root s T W) (hT : T 0 (region 1 (va / pageSize)) = some page) :
    s.mem page (tableIndex va 0) = W (va / pageSize) := by
  rw [tableIndex_eq, h.leaf hT _ (Nat.mod_lt _ (by decide)), region_split, region_zero]

/-- The tables above a table on a walk exist. -/
theorem Outline.tables_above (h : Outline F (· < half) root s T W) {v l : Nat} (hne : T l (region (l + 1) v) ≠ none) :
    ∀ k, l + k ≤ F.top → T (l + k) (region (l + k + 1) v) ≠ none
  | 0, _ => hne
  | k + 1, hk => by
    have hp := h.parent (h.tables_above hne k (by omega)) (by omega)
    rwa [← region_succ] at hp

/-- Below a missing table every word is zero. -/
theorem Outline.word_eq_zero (h : Outline F (· < half) root s T W) {v l : Nat} (hl : l ≤ F.top)
    (hnone : T l (region (l + 1) v) = none) : W v = 0 := by
  by_contra hne
  have h0 : T 0 (region 1 v) ≠ none := by
    rw [region_succ, region_zero]
    exact h.wordParent hne
  have := h.tables_above h0 l (by omega)
  rw [Nat.zero_add] at this
  exact this hnone

theorem PteFormat.Lawful.live_zero (hF : F.Lawful) : F.live 0 = false := by simp [PteFormat.live, hF.present_zero]

/-- A query that finds a live word reports a mapping. -/
theorem queryAt_live (hF : F.Lawful) (h : Outline F (· < half) root s T W) (hlow : Below F half (va / pageSize))
    (hlive : F.live (W (va / pageSize)) = true) : ∀ (level : Nat) {page : Nat} {inh st : PageStatus},
    T level (region (level + 1) (va / pageSize)) = some page → level ≤ F.top →
    s.queryAt F va level page inh = some st → ∃ phys flags g, st = .mapped phys flags g
  | 0, page, inh, st, hT, _, he => by
    have hp : F.entryPresent (W (va / pageSize)) = true := (Bool.and_eq_true_iff.1 hlive).1
    rw [Memory.queryAt, h.read_leaf hT] at he
    simp only [hp, Bool.not_true, Bool.false_eq_true, if_false, Option.bind_eq_bind, Option.bind_eq_some_iff] at he
    obtain ⟨_, _, he⟩ := he
    cases he
    exact ⟨_, _, _, rfl⟩
  | level + 1, page, inh, st, hT, hle, he => by
    rw [Memory.queryAt, h.read_table hlow hT] at he
    cases hc : T level (region (level + 1) (va / pageSize)) with
    | none =>
      rw [h.word_eq_zero (by omega) hc, hF.live_zero] at hlive
      cases hlive
    | some child =>
      have hok := h.frameOk hc
      simp only [hc, PteFormat.tableWord, hF.present_table hok, hF.not_leaf_table hok, hF.phys_table hok, Bool.not_true,
        Bool.false_eq_true, if_false, Option.bind_eq_bind, Option.bind_eq_some_iff] at he
      obtain ⟨_, _, he⟩ := he
      exact queryAt_live hF h hlow hlive level hc (by omega) he

end Walk

/-! ## Mapping -/

section Map

variable {F : PteFormat} {half root bound : Nat} {W : Nat → Nat} {va : Nat} {rest : List Nat} {other : List Extent}

theorem setStatus_some {s s' : Memory} {page i : Nat} {st : PageStatus} (h : s.setStatus page i st = some s') :
    s'.mem = s.mem ∧ s'.frames = s.frames := by
  simp only [Memory.setStatus, Option.bind_eq_bind, Option.bind_eq_some_iff] at h
  obtain ⟨_, _, he⟩ := h
  cases he
  exact ⟨rfl, rfl⟩

theorem dropMetadata_some {s s' : Memory} {page : Nat} (h : s.dropMetadata page = some s') :
    s'.mem = s.mem ∧ s'.frames = s.frames := by
  simp only [Memory.dropMetadata, Option.bind_eq_bind, Option.bind_eq_some_iff] at h
  obtain ⟨_, _, he⟩ := h
  cases he
  exact ⟨rfl, rfl⟩

/-- Writing the word of a page in its level-0 table. -/
theorem Outline.write {s s₁ s' : Memory} {T : Tables} {tables : List Nat} (h : Outline F (· < half) root s T W)
    (hT : Lists T tables) (hnd : (tables ++ rest).Nodup) {page w : Nat}
    (hpage : T 0 (region 1 (va / pageSize)) = some page) (hs₁ : s₁ = s.setEntry page (tableIndex va 0) w)
    (hs' : s'.mem = s₁.mem) :
    Outline F (· < half) root s' T (Function.update W (va / pageSize) w) ∧ Same rest s s' := by
  subst hs₁
  have hkey : region 1 (va / pageSize) * 512 + tableIndex va 0 = va / pageSize := by
    rw [tableIndex_eq, region_split, region_zero]
  have hmem : ∀ f j, s'.mem f j = if f = page ∧ j = tableIndex va 0 then w else s.mem f j := fun f j => by
    rw [hs']
    exact mem_setEntry s page _ w f j
  constructor
  · have := h.setWord hpage (tableIndex_lt va 0) hmem
    rwa [hkey] at this
  · refine Same.of_update (fun hr => ?_) hs'
    exact List.disjoint_of_nodup_append hnd ((hT page).2 ⟨_, _, hpage⟩) hr

/-- What a call of the mapping loop leaves behind: tables were added, and the page's word was written or not. -/
theorem mapAt_outline (hF : F.Lawful) (hb : bound ≤ 2 ^ 36) {phys : Nat} {flags : MappingFlags}
    (hlow : Below F half (va / pageSize)) : ∀ (level : Nat) {page : Nat} {s s' : Memory} {T : Tables} {tables : List Nat}
    {r : Except MapError Unit}, Outline F (· < half) root s T W → Lists T tables → Pool bound s.frames (tables ++ rest) other →
    T level (region (level + 1) (va / pageSize)) = some page →
    Memory.mapAt F va phys flags 0 level page s = some (r, s') →
    ∃ T' W' tables', Outline F (· < half) root s' T' W' ∧ Lists T' tables' ∧ Pool bound s'.frames (tables' ++ rest) other ∧
      Same rest s s' ∧
      (r = .ok () ∧ W' = Function.update W (va / pageSize) (F.leafEntry phys flags 0) ∨ (∃ e, r = .error e) ∧ W' = W)
  | 0, page, s, s', T, tables, r, h, hT, hpool, hpage, he => by
    rw [Memory.mapAt] at he
    simp only [if_true, Option.bind_eq_bind] at he
    -- the metadata decides, but either way the page's word is all that can change
    obtain ⟨st, he⟩ : ∃ st : PageStatus, (if st ≠ .invalid then some (.error .blockedByExistingMapping, s)
        else ((s.setEntry page (tableIndex va 0) (F.leafEntry phys flags 0)).setStatus page (tableIndex va 0)
          (.mapped phys flags (span 0))).bind fun s => some (.ok (), s)) = some (r, s') := by
      split at he
      · obtain ⟨st, -, he⟩ := Option.bind_eq_some_iff.1 he
        exact ⟨st, he⟩
      · exact ⟨.invalid, he⟩
    split at he
    · cases he
      exact ⟨T, W, tables, h, hT, hpool, Same.refl _ _, Or.inr ⟨⟨_, rfl⟩, rfl⟩⟩
    · simp only [Option.bind_eq_some_iff] at he
      obtain ⟨s₁, hst, he⟩ := he
      cases he
      obtain ⟨hmem, hfr⟩ := setStatus_some hst
      obtain ⟨h', hs⟩ := h.write hT hpool.nodup hpage rfl hmem
      exact ⟨T, _, tables, h', hT, by rw [hfr]; exact hpool, hs, Or.inl ⟨rfl, rfl⟩⟩
  | level + 1, page, s, s', T, tables, r, h, hT, hpool, hpage, he => by
    have hread := h.read_table hlow hpage
    have hltop := (h.bounded hpage).1
    rw [Memory.mapAt] at he
    cases hc : T level (region (level + 1) (va / pageSize)) with
    | some child =>
      have hok := h.frameOk hc
      simp only [hread, hc, PteFormat.tableWord, hF.present_table hok, hF.not_leaf_table hok, hF.phys_table hok,
        Nat.add_one_ne_zero, if_false, Bool.not_true, Bool.false_eq_true, Option.bind_eq_bind,
        Option.bind_eq_some_iff] at he
      obtain ⟨_, -, he⟩ := he
      exact mapAt_outline hF hb hlow level h hT hpool hc he
    | none =>
      simp only [hread, hc, PteFormat.tableWord, hF.present_zero, Nat.add_one_ne_zero, if_false, Bool.not_false, if_true,
        Option.bind_eq_bind, Option.bind_eq_some_iff] at he
      obtain ⟨⟨q, a⟩, hal, he⟩ := he
      rcases allocFrame_cases hpool hal with ⟨child, rfl, hpool₁, -⟩ | ⟨rfl, rfl, -⟩
      swap
      · cases he
        exact ⟨T, W, tables, h, hT, hpool, Same.refl _ _, Or.inr ⟨⟨_, rfl⟩, rfl⟩⟩
      simp only [Option.bind_eq_some_iff] at he
      obtain ⟨_, -, he⟩ := he
      -- a table is linked in, and the walk goes on in it
      have hchild := FrameOk.of_placed hb (hpool₁.placed (List.mem_cons_self ..))
      have hnd := List.nodup_cons.1 hpool₁.nodup
      have hfresh : ∀ l p, T l p ≠ some child := fun l p hf =>
        hnd.1 (List.mem_append_left _ ((hT child).2 ⟨l, p, hf⟩))
      have hkey : region (level + 2) (va / pageSize) * 512 + tableIndex va (level + 1) =
          region (level + 1) (va / pageSize) := by rw [tableIndex_eq, region_split]
      have hmem : ∀ f j, (({ s with frames := a }.zeroPage child).setEntry page (tableIndex va (level + 1))
          (F.tableEntry child)).mem f j = if f = page ∧ j = tableIndex va (level + 1) then F.tableEntry child
            else if f = child then 0 else s.mem f j := fun f j => by rw [mem_setEntry, mem_zeroPage]
      have h₁ := h.addTable hpage (tableIndex_lt va (level + 1)) (by rw [hkey]; exact hc) hchild hfresh hmem
      rw [hkey] at h₁
      obtain ⟨T', W', tables', h', hT', hpool', hs, hres⟩ :=
        mapAt_outline hF hb hlow level h₁ (hT.add hc) hpool₁ (Tables.set_self ..) he
      refine ⟨T', W', tables', h', hT', hpool', Same.trans (fun f hf => ?_) hs, hres⟩
      have hfp : f ≠ page := by
        rintro rfl
        exact List.disjoint_of_nodup_append hnd.2 ((hT f).2 ⟨_, _, hpage⟩) hf
      have hfc : f ≠ child := by
        rintro rfl
        exact hnd.1 (List.mem_append_right _ hf)
      funext j
      rw [hmem, if_neg (fun hp => hfp hp.1), if_neg hfc]

end Map

/-! ## Unmapping -/

section Unmap

variable {F : PteFormat} {half root bound : Nat} {W : Nat → Nat} {va : Nat} {rest : List Nat} {other : List Extent}

theorem Lists.remove {T : Tables} {tables : List Nat} (hT : Lists T tables) (hnd : tables.Nodup) {l k child : Nat}
    (hc : T l k = some child) (hinj : ∀ {l' p' : Nat}, T l' p' = some child → l' = l ∧ p' = k) :
    Lists (T.set l k none) (tables.erase child) := by
  intro f
  rw [hnd.mem_erase_iff, hT f]
  constructor
  · rintro ⟨hne, l', p', hf⟩
    refine ⟨l', p', ?_⟩
    rw [Tables.set_of_ne T _ ?_]
    · exact hf
    · rintro ⟨rfl, rfl⟩
      exact hne (Option.some.inj (hf.symm.trans hc))
  · rintro ⟨l', p', hset⟩
    obtain ⟨hk, hf⟩ := Tables.set_none_cases hset
    exact ⟨by rintro rfl; exact hk (hinj hf), l', p', hf⟩

/-- What a call of the unmapping loop leaves behind: the page's word is not live, and tables of its walk were freed. -/
theorem unmapIn_outline (hF : F.Lawful) (hlow : Below F half (va / pageSize)) (halign : va % pageSize = 0) :
    ∀ (level : Nat) {page n n' : Nat} {s s' : Memory} {T : Tables} {tables : List Nat}, Outline F (· < half) root s T W →
    Lists T tables → Pool bound s.frames (tables ++ rest) other →
    T level (region (level + 1) (va / pageSize)) = some page → level ≤ F.top →
    Memory.unmapIn F level page (region (level + 1) (va / pageSize) * span (level + 1)) va (va + pageSize) (s, n) =
      some (s', n') →
    ∃ T' W' tables', Outline F (· < half) root s' T' W' ∧ Lists T' tables' ∧ Pool bound s'.frames (tables' ++ rest) other ∧
      Same rest s s' ∧ (∀ l p, level ≤ l → T' l p = T l p) ∧
      (W' = W ∧ F.live (W (va / pageSize)) = false ∨ W' = Function.update W (va / pageSize) 0)
  | 0, page, n, n', s, s', T, tables, h, hT, hpool, hpage, _, he => by
    have hread := h.read_leaf hpage
    rw [unmapIn_eq F 0 page _ halign] at he
    simp only [Memory.unmapEntry, hread] at he
    by_cases hpres : F.entryPresent (W (va / pageSize)) = true
    swap
    · simp only [hpres, Bool.not_false, if_true] at he
      cases he
      exact ⟨T, W, tables, h, hT, hpool, Same.refl _ _, fun _ _ _ => rfl, Or.inl ⟨rfl, by simp [PteFormat.live, hpres]⟩⟩
    by_cases hleaf : F.entryIsLeaf (W (va / pageSize)) 0 = true
    swap
    · simp only [hpres, hleaf, Bool.not_true, Bool.false_eq_true, if_false, gt_iff_lt, Nat.lt_irrefl] at he
      cases he
      exact ⟨T, W, tables, h, hT, hpool, Same.refl _ _, fun _ _ _ => rfl, Or.inl ⟨rfl, by simp [PteFormat.live, hleaf]⟩⟩
    simp only [hpres, hleaf, Bool.not_true, Bool.false_eq_true, if_false, if_true, BEq.rfl, Bool.or_true,
      Option.bind_eq_bind, Option.bind_eq_some_iff] at he
    obtain ⟨s₁, hst, he⟩ := he
    cases he
    obtain ⟨hmem, hfr⟩ := setStatus_some hst
    obtain ⟨h', hs⟩ := h.write hT hpool.nodup hpage rfl hmem
    exact ⟨T, _, tables, h', hT, by rw [hfr]; exact hpool, hs, fun _ _ _ => rfl, Or.inr rfl⟩
  | level + 1, page, n, n', s, s', T, tables, h, hT, hpool, hpage, hle, he => by
    have hread := h.read_table hlow hpage
    rw [unmapIn_eq F (level + 1) page _ halign] at he
    cases hc : T level (region (level + 1) (va / pageSize)) with
    | none =>
      simp only [Memory.unmapEntry, hread, hc, PteFormat.tableWord, hF.present_zero, Bool.not_false, if_true] at he
      cases he
      refine ⟨T, W, tables, h, hT, hpool, Same.refl _ _, fun _ _ _ => rfl, Or.inl ⟨rfl, ?_⟩⟩
      rw [h.word_eq_zero (by omega) hc, hF.live_zero]
    | some child =>
      have hok := h.frameOk hc
      have hva : va / pageSize * pageSize = va := by unfold pageSize at *; omega
      obtain ⟨hlo, hhi⟩ := region_bounds (level + 1) (va / pageSize)
      rw [hva] at hlo hhi
      have hstart : region (level + 2) (va / pageSize) * span (level + 2) + tableIndex va (level + 1) * span (level + 1) =
          region (level + 1) (va / pageSize) * span (level + 1) := by
        rw [tableIndex_eq]
        exact entry_start (level + 1) (va / pageSize)
      simp only [Memory.unmapEntry, hread, hc, PteFormat.tableWord, hF.present_table hok, hF.not_leaf_table hok,
        hF.phys_table hok, hstart, Nat.max_eq_left hlo, Nat.min_eq_left hhi, Bool.not_true, Bool.false_eq_true, if_false,
        Nat.succ_pos, gt_iff_lt, if_true, Option.bind_eq_bind, Option.bind_eq_some_iff] at he
      obtain ⟨_, -, ⟨s₁, n₁⟩, he₁, he⟩ := he
      obtain ⟨T₁, W₁, tables₁, h₁, hT₁, hpool₁, hs₁, hup, hres⟩ :=
        unmapIn_outline hF hlow halign level h hT hpool hc (by omega) he₁
      split at he
      swap
      · cases he
        exact ⟨T₁, W₁, tables₁, h₁, hT₁, hpool₁, hs₁, fun l p hl => hup l p (by omega), hres⟩
      rename_i hempty
      simp only [Option.bind_eq_some_iff] at he
      obtain ⟨s₂, hdrop, a, hfree, he⟩ := he
      cases he
      obtain ⟨hmem, hfr⟩ := dropMetadata_some hdrop
      have hzero : ∀ j < 512, s₁.mem child j = 0 := by
        intro j hj
        have := List.all_eq_true.1 hempty j (List.mem_range.2 hj)
        simpa using this
      have hc₁ : T₁ level (region (level + 1) (va / pageSize)) = some child := (hup _ _ (Nat.le_refl _)).trans hc
      have hpage₁ : T₁ (level + 1) (region (level + 2) (va / pageSize)) = some page :=
        (hup _ _ (Nat.le_succ _)).trans hpage
      have hkey : region (level + 2) (va / pageSize) * 512 + tableIndex va (level + 1) =
          region (level + 1) (va / pageSize) := by rw [tableIndex_eq, region_split]
      have hmem₂ : ∀ f j, ({ s₂ with frames := a }.setEntry page (tableIndex va (level + 1)) 0).mem f j =
          if f = page ∧ j = tableIndex va (level + 1) then 0 else s₁.mem f j := fun f j => by
        rw [mem_setEntry]
        exact if_congr Iff.rfl rfl (by rw [hmem])
      have h₂ := h₁.removeTable hF hpage₁ (tableIndex_lt va (level + 1)) (by rw [hkey]; exact hc₁) hzero hmem₂
      rw [hkey] at h₂
      have hin : child ∈ tables₁ := (hT₁ child).2 ⟨_, _, hc₁⟩
      have hnd := hpool₁.nodup
      obtain ⟨a', hfree', hpool', -⟩ := freeFrame_pool
        (hpool₁.perm ((List.perm_cons_erase hin).append_right rest))
      obtain rfl : a = a' := by
        rw [hfr] at hfree
        exact Option.some.inj (hfree.symm.trans hfree')
      refine ⟨_, W₁, tables₁.erase child, h₂, hT₁.remove (List.nodup_append.1 hnd).1 hc₁ fun hf => h₁.inj hf hc₁, hpool',
        hs₁.trans fun f hf => ?_, ?_, hres⟩
      · have hne : f ≠ page := by
          rintro rfl
          exact List.disjoint_of_nodup_append hnd ((hT₁ f).2 ⟨_, _, hpage₁⟩) hf
        funext j
        rw [hmem₂, if_neg fun hp => hne hp.1]
      · intro l p hl
        rw [Tables.set_of_ne T₁ _ (by omega)]
        exact hup l p (by omega)

end Unmap

end Koros.Mmu
