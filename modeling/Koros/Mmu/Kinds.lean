import Koros.Mmu.Outline

/-!
# The table pages of all page tables

`K f` is the kind of the table page in frame `f`: its level, and how many of its entries lead to tables of its own; the
tables behind the other entries are shared with other roots. `Typed` says that memory and metadata agree with the kinds,
over all page tables at once, with leaves of any level and with marks: a table of level `l + 1` points to tables of level
`l`, a table that is not shared has one entry that points to it, a status `Mapped` stands beside a leaf, and only table
pages have metadata.

The engine changes memory by a few moves that keep this: `Typed.link`, `Typed.setLeaf`, `Typed.setStat`, `Typed.unlink`,
and `Typed.root`.
-/
set_option autoImplicit false

namespace Koros.Mmu

open Koros.Frame

/-- What a table page is: its level and the number of entries that lead to its own tables. -/
structure Kind where
  level : Nat
  half : Nat

/-- The kind of the table behind entry `i`. -/
def Kind.child (l half i : Nat) : Kind := ⟨l, if i < half then 512 else 0⟩

/-- Entry `i` of the table page `f` of level `l` points to the table page `c`. -/
structure Points (F : PteFormat) (s : Memory) (f l i c : Nat) : Prop where
  lt : i < 512
  present : F.entryPresent (s.mem f i) = true
  not_leaf : F.entryIsLeaf (s.mem f i) l = false
  phys : F.entryPhys (s.mem f i) l = c

structure Typed (F : PteFormat) (s : Memory) (K : Nat → Option Kind) : Prop where
  level_le : ∀ {f : Nat} {k : Kind}, K f = some k → k.level ≤ F.top
  aligned : ∀ {f : Nat} {k : Kind}, K f = some k → f % pageSize = 0
  child : ∀ {f l h i c : Nat}, K f = some ⟨l + 1, h⟩ → Points F s f (l + 1) i c → K c = some (Kind.child l h i)
  inj : ∀ {f l h i f' l' h' i' c : Nat}, K f = some ⟨l + 1, h⟩ → K f' = some ⟨l' + 1, h'⟩ → i < h → i' < h' →
    Points F s f (l + 1) i c → Points F s f' (l' + 1) i' c → f = f' ∧ i = i'
  leaf : ∀ {f h i : Nat}, K f = some ⟨0, h⟩ → i < 512 → F.entryPresent (s.mem f i) = true →
    F.entryIsLeaf (s.mem f i) 0 = true
  mapped : ∀ {f l h i phys g : Nat} {flags : MappingFlags}, K f = some ⟨l, h⟩ → i < 512 →
    s.stat f i = .mapped phys flags g → F.entryPresent (s.mem f i) = true ∧ F.entryIsLeaf (s.mem f i) l = true
  described : ∀ {d : Nat}, s.metadata d ≠ none → ∃ f, K f ≠ none ∧ f / pageSize = d

section Metadata

variable {s s' : Memory} {page i : Nat} {st : PageStatus}

theorem stat_eq_invalid {f : Nat} (h : s.metadata (f / pageSize) = none) (j : Nat) : s.stat f j = .invalid := by
  rw [Memory.stat, h]

/-- What `set_status` does to the statuses. -/
theorem setStatus_stat (h : s.setStatus page i st = some s') : page % pageSize = 0 ∧
    (∀ f j, f % pageSize = 0 → s'.stat f j = if f = page ∧ j = i then st else s.stat f j) ∧
    ∀ d, s'.metadata d ≠ none → s.metadata d ≠ none ∨ d = page / pageSize := by
  simp only [Memory.setStatus, Option.bind_eq_bind, Option.bind_eq_some_iff] at h
  obtain ⟨d, hd, he⟩ := h
  unfold Memory.descriptorOf at hd
  split at hd
  swap
  · cases hd
  rename_i hok
  cases hd
  cases he
  refine ⟨hok.1, fun f j hf => stat_update s hok.1 hf i j st rfl, fun d hd => ?_⟩
  by_cases hdp : d = page / pageSize
  · exact Or.inr hdp
  · left
    simpa only [Function.update_of_ne hdp] using hd

/-- What `drop_metadata` does to the metadata. -/
theorem dropMetadata_metadata (h : s.dropMetadata page = some s') :
    s'.metadata = Function.update s.metadata (page / pageSize) none := by
  simp only [Memory.dropMetadata, Option.bind_eq_bind, Option.bind_eq_some_iff] at h
  obtain ⟨d, hd, he⟩ := h
  unfold Memory.descriptorOf at hd
  split at hd
  swap
  · cases hd
  cases hd
  cases he
  rfl

end Metadata

namespace Typed

variable {F : PteFormat} {s s' : Memory} {K : Nat → Option Kind}

/-- Frames without a kind have no metadata. -/
theorem metadata_eq_none (h : Typed F s K) {f : Nat} (hK : K f = none) (hf : f % pageSize = 0) :
    s.metadata (f / pageSize) = none := by
  by_contra hne
  obtain ⟨g, hg, hd⟩ := h.described hne
  obtain ⟨k, hk⟩ := Option.ne_none_iff_exists'.1 hg
  have hgf : g ≠ f := by
    rintro rfl
    exact hg hK
  exact div_ne_of_aligned (h.aligned hk) hf hgf hd

/-! ## The moves -/

/-- A status other than `Mapped` is written. -/
theorem setStat (h : Typed F s K) {page i : Nat} {st : PageStatus} (hpage : K page ≠ none)
    (hst : ∀ phys flags g, st ≠ .mapped phys flags g) (he : s.setStatus page i st = some s') : Typed F s' K := by
  obtain ⟨hal, hstat, hmeta⟩ := setStatus_stat he
  obtain ⟨hmem, -⟩ := setStatus_some he
  have hpt : ∀ {f l i c : Nat}, Points F s' f l i c → Points F s f l i c := fun hp =>
    ⟨hp.lt, hmem ▸ hp.present, hmem ▸ hp.not_leaf, hmem ▸ hp.phys⟩
  refine { h with child := ?_, inj := ?_, leaf := ?_, mapped := ?_, described := ?_ }
  · intro f l hf i c hk hp
    exact h.child hk (hpt hp)
  · intro f l hf i f' l' hf' i' c hk hk' hi hi' hp hp'
    exact h.inj hk hk' hi hi' (hpt hp) (hpt hp')
  · intro f hf i hk hi hp
    rw [hmem] at hp ⊢
    exact h.leaf hk hi hp
  · intro f l hf j phys g flags hk hj hm
    rw [hstat f j (h.aligned hk)] at hm
    rw [hmem]
    split at hm
    · exact absurd hm (hst _ _ _)
    · exact h.mapped hk hj hm
  · intro d hd
    rcases hmeta d hd with hd | rfl
    · exact h.described hd
    · exact ⟨page, hpage, rfl⟩

/-- An entry that points to no table is written, together with its status. -/
theorem setLeaf (h : Typed F s K) {page l half i w : Nat} {st : PageStatus} (hpage : K page = some ⟨l, half⟩)
    (hw : F.entryPresent w = true → F.entryIsLeaf w l = true)
    (hst : ∀ phys flags g, st = .mapped phys flags g → F.entryPresent w = true)
    (he : (s.setEntry page i w).setStatus page i st = some s') : Typed F s' K := by
  obtain ⟨hal, hstat, hmeta⟩ := setStatus_stat he
  obtain ⟨hmem₁, -⟩ := setStatus_some he
  have hmem : ∀ f j, s'.mem f j = if f = page ∧ j = i then w else s.mem f j := fun f j => by
    rw [hmem₁]
    exact mem_setEntry s page i w f j
  have hpt : ∀ {f l' h' j c : Nat}, K f = some ⟨l' + 1, h'⟩ → Points F s' f (l' + 1) j c → Points F s f (l' + 1) j c := by
    intro f l' h' j c hk hp
    by_cases hfj : f = page ∧ j = i
    · obtain ⟨rfl, rfl⟩ := hfj
      rw [hpage] at hk
      cases hk
      have hm := hmem f j
      rw [if_pos ⟨rfl, rfl⟩] at hm
      have hl := hw (hm ▸ hp.present)
      have hn := hp.not_leaf
      rw [hm, hl] at hn
      cases hn
    · have hm := hmem f j
      rw [if_neg hfj] at hm
      exact ⟨hp.lt, hm ▸ hp.present, hm ▸ hp.not_leaf, hm ▸ hp.phys⟩
  refine { h with child := ?_, inj := ?_, leaf := ?_, mapped := ?_, described := ?_ }
  · intro f l' h' j c hk hp
    exact h.child hk (hpt hk hp)
  · intro f l₁ h₁ i₁ f₂ l₂ h₂ i₂ c hk₁ hk₂ hi₁ hi₂ hp₁ hp₂
    exact h.inj hk₁ hk₂ hi₁ hi₂ (hpt hk₁ hp₁) (hpt hk₂ hp₂)
  · intro f h' j hk hj hp
    rw [hmem] at hp ⊢
    split at hp
    · rename_i hfj
      obtain ⟨rfl, rfl⟩ := hfj
      rw [hpage] at hk
      cases hk
      rw [if_pos ⟨rfl, rfl⟩]
      exact hw hp
    · rename_i hfj
      rw [if_neg hfj]
      exact h.leaf hk hj hp
  · intro f l' h' j phys g flags hk hj hm
    rw [hstat f j (h.aligned hk)] at hm
    rw [hmem]
    split at hm
    · rename_i hfj
      rw [if_pos hfj]
      obtain ⟨rfl, rfl⟩ := hfj
      rw [hpage] at hk
      cases hk
      have hp := hst _ _ _ hm
      exact ⟨hp, hw hp⟩
    · rename_i hfj
      rw [if_neg hfj]
      exact h.mapped hk hj hm
  · intro d hd
    rcases hmeta d hd with hd | rfl
    · exact h.described hd
    · exact ⟨page, by rw [hpage]; simp, rfl⟩

/-- A new table of level `l` is linked into an entry that pointed to none. -/
theorem link (hF : F.Lawful) (h : Typed F s K) {page l half i child : Nat} {filler : Nat → Nat}
    (hpage : K page = some ⟨l + 1, half⟩) (hchild : K child = none) (hok : FrameOk child)
    (hfill : ∀ j < 512, F.entryPresent (filler j) = true → F.entryIsLeaf (filler j) l = true)
    (hst : ∀ phys flags g, s'.stat page i ≠ .mapped phys flags g)
    (hstat : ∀ f j, f % pageSize = 0 → ¬ (f = page ∧ j = i) → s'.stat f j = s.stat f j)
    (hmeta : ∀ d, s'.metadata d ≠ none → s.metadata d ≠ none ∨ d = page / pageSize)
    (hmem : ∀ f j, s'.mem f j =
      if f = page ∧ j = i then F.tableEntry child else if f = child then filler j else s.mem f j) :
    Typed F s' (Function.update K child (some (Kind.child l half i))) := by
  have hpc : page ≠ child := by
    rintro rfl
    rw [hpage] at hchild
    cases hchild
  have hold : ∀ {f : Nat} {k : Kind}, Function.update K child (some (Kind.child l half i)) f = some k →
      f = child ∧ k = Kind.child l half i ∨ f ≠ child ∧ K f = some k := by
    intro f k hk
    by_cases hfc : f = child
    · subst hfc
      rw [Function.update_self] at hk
      exact Or.inl ⟨rfl, (Option.some.inj hk).symm⟩
    · rw [Function.update_of_ne hfc] at hk
      exact Or.inr ⟨hfc, hk⟩
  -- a pointer is the new one or an old one
  have hpt : ∀ {f l' h' j c : Nat}, Function.update K child (some (Kind.child l half i)) f = some ⟨l' + 1, h'⟩ →
      Points F s' f (l' + 1) j c → (f = page ∧ j = i ∧ c = child) ∨ (f ≠ child ∧ Points F s f (l' + 1) j c ∧ c ≠ child) := by
    intro f l' h' j c hk hp
    have hm := hmem f j
    by_cases hfj : f = page ∧ j = i
    · rw [if_pos hfj] at hm
      refine Or.inl ⟨hfj.1, hfj.2, ?_⟩
      rw [← hp.phys, hm, hF.phys_table hok]
    rw [if_neg hfj] at hm
    rcases hold hk with ⟨rfl, hkind⟩ | ⟨hfc, hkf⟩
    · rw [if_pos rfl] at hm
      have hl : l' + 1 = l := congrArg Kind.level hkind
      have hn := hp.not_leaf
      rw [hm, hl, hfill j hp.lt (hm ▸ hp.present)] at hn
      cases hn
    · rw [if_neg hfc] at hm
      have hp' : Points F s f (l' + 1) j c := ⟨hp.lt, hm ▸ hp.present, hm ▸ hp.not_leaf, hm ▸ hp.phys⟩
      refine Or.inr ⟨hfc, hp', ?_⟩
      rintro rfl
      rw [h.child hkf hp'] at hchild
      cases hchild
  have hnone := h.metadata_eq_none hchild hok.1
  constructor
  case level_le =>
    intro f k hk
    rcases hold hk with ⟨-, rfl⟩ | ⟨-, hkf⟩
    · exact Nat.le_of_succ_le (h.level_le hpage)
    · exact h.level_le hkf
  case aligned =>
    intro f k hk
    rcases hold hk with ⟨rfl, -⟩ | ⟨-, hkf⟩
    · exact hok.1
    · exact h.aligned hkf
  case child =>
    intro f l' h' j c hk hp
    rcases hpt hk hp with ⟨rfl, rfl, rfl⟩ | ⟨hfc, hp', hc⟩
    · rw [Function.update_of_ne hpc, hpage] at hk
      cases hk
      exact Function.update_self ..
    · rw [Function.update_of_ne hfc] at hk
      rw [Function.update_of_ne hc]
      exact h.child hk hp'
  case inj =>
    intro f₁ l₁ h₁ i₁ f₂ l₂ h₂ i₂ c hk₁ hk₂ hi₁ hi₂ hp₁ hp₂
    rcases hpt hk₁ hp₁ with ⟨rfl, rfl, hc⟩ | ⟨hfc₁, hp₁', hc₁⟩ <;> rcases hpt hk₂ hp₂ with ⟨rfl, rfl, hc'⟩ | ⟨hfc₂, hp₂', hc₂⟩
    · exact ⟨rfl, rfl⟩
    · exact absurd hc hc₂
    · exact absurd hc' hc₁
    · rw [Function.update_of_ne hfc₁] at hk₁
      rw [Function.update_of_ne hfc₂] at hk₂
      exact h.inj hk₁ hk₂ hi₁ hi₂ hp₁' hp₂'
  case leaf =>
    intro f h' j hk hj hp
    have hm := hmem f j
    rw [if_neg] at hm
    · rcases hold hk with ⟨rfl, hkind⟩ | ⟨hfc, hkf⟩
      · rw [if_pos rfl] at hm
        have hl : 0 = l := congrArg Kind.level hkind
        rw [hm, hl]
        exact hfill j hj (hm ▸ hp)
      · rw [if_neg hfc] at hm
        rw [hm] at hp ⊢
        exact h.leaf hkf hj hp
    · rintro ⟨rfl, rfl⟩
      rw [Function.update_of_ne hpc, hpage] at hk
      cases hk
  case mapped =>
    intro f l' h' j phys g flags hk hj hm
    by_cases hfj : f = page ∧ j = i
    · obtain ⟨rfl, rfl⟩ := hfj
      exact absurd hm (hst _ _ _)
    rcases hold hk with ⟨rfl, -⟩ | ⟨hfc, hkf⟩
    · rw [hstat f j hok.1 hfj, stat_eq_invalid hnone] at hm
      cases hm
    · rw [hstat f j (h.aligned hkf) hfj] at hm
      rw [hmem, if_neg hfj, if_neg hfc]
      exact h.mapped hkf hj hm
  case described =>
    intro d hd
    rcases hmeta d hd with hd | rfl
    · obtain ⟨f, hf, rfl⟩ := h.described hd
      refine ⟨f, ?_, rfl⟩
      rw [Function.update_of_ne]
      · exact hf
      · rintro rfl
        exact hf hchild
    · refine ⟨page, ?_, rfl⟩
      rw [Function.update_of_ne hpc, hpage]
      exact Option.some_ne_none _

/-- A table loses the entry that points to it. -/
theorem unlink (hF : F.Lawful) (h : Typed F s K) {page l half i child : Nat} (hpage : K page = some ⟨l + 1, half⟩)
    (hi : i < half) (hp : Points F s page (l + 1) i child)
    (hmem : ∀ f j, s'.mem f j = if f = page ∧ j = i then 0 else s.mem f j)
    (hmeta : s'.metadata = Function.update s.metadata (child / pageSize) none) :
    Typed F s' (Function.update K child none) := by
  have hkc : K child = some ⟨l, 512⟩ := by
    rw [h.child hpage hp, Kind.child, if_pos hi]
  have hold : ∀ {f : Nat} {k : Kind}, Function.update K child none f = some k → f ≠ child ∧ K f = some k := by
    intro f k hk
    by_cases hfc : f = child
    · rw [hfc, Function.update_self] at hk
      cases hk
    · rw [Function.update_of_ne hfc] at hk
      exact ⟨hfc, hk⟩
  have hpt : ∀ {f l' h' j c : Nat}, K f = some ⟨l' + 1, h'⟩ → Points F s' f (l' + 1) j c →
      Points F s f (l' + 1) j c ∧ c ≠ child := by
    intro f l' h' j c hk hq
    have hm := hmem f j
    have hfj : ¬ (f = page ∧ j = i) := by
      intro hfj
      rw [if_pos hfj] at hm
      have hpr := hq.present
      rw [hm, hF.present_zero] at hpr
      cases hpr
    rw [if_neg hfj] at hm
    have hq' : Points F s f (l' + 1) j c := ⟨hq.lt, hm ▸ hq.present, hm ▸ hq.not_leaf, hm ▸ hq.phys⟩
    refine ⟨hq', ?_⟩
    rintro rfl
    have hkind := h.child hk hq'
    rw [hkc, Kind.child] at hkind
    split at hkind
    · rename_i hj
      exact hfj (h.inj hk hpage hj hi hq' hp)
    · cases hkind
  have hstat : ∀ {f : Nat} {k : Kind} (j : Nat), f ≠ child → K f = some k → s'.stat f j = s.stat f j := by
    intro f k j hfc hk
    exact stat_drop s (h.aligned hkc) (h.aligned hk) j hfc hmeta
  constructor
  case level_le => intro f k hk; exact h.level_le (hold hk).2
  case aligned => intro f k hk; exact h.aligned (hold hk).2
  case child =>
    intro f l' h' j c hk hq
    obtain ⟨hq', hc⟩ := hpt (hold hk).2 hq
    rw [Function.update_of_ne hc]
    exact h.child (hold hk).2 hq'
  case inj =>
    intro f₁ l₁ h₁ i₁ f₂ l₂ h₂ i₂ c hk₁ hk₂ hi₁ hi₂ hp₁ hp₂
    exact h.inj (hold hk₁).2 (hold hk₂).2 hi₁ hi₂ (hpt (hold hk₁).2 hp₁).1 (hpt (hold hk₂).2 hp₂).1
  case leaf =>
    intro f h' j hk hj hq
    rw [hmem] at hq ⊢
    split at hq
    · rw [hF.present_zero] at hq
      cases hq
    · rename_i hfj
      rw [if_neg hfj]
      exact h.leaf (hold hk).2 hj hq
  case mapped =>
    intro f l' h' j phys g flags hk hj hm
    obtain ⟨hfc, hkf⟩ := hold hk
    rw [hstat j hfc hkf] at hm
    have hold' := h.mapped hkf hj hm
    rw [hmem, if_neg]
    · exact hold'
    · rintro ⟨rfl, rfl⟩
      rw [hpage] at hkf
      cases hkf
      have hn := hp.not_leaf
      rw [hold'.2] at hn
      cases hn
  case described =>
    intro d hd
    rw [hmeta] at hd
    by_cases hdc : d = child / pageSize
    · rw [hdc, Function.update_self] at hd
      exact absurd rfl hd
    · rw [Function.update_of_ne hdc] at hd
      obtain ⟨f, hf, rfl⟩ := h.described hd
      refine ⟨f, ?_, rfl⟩
      rw [Function.update_of_ne]
      · exact hf
      · rintro rfl
        exact hdc rfl

/-- A new root; its upper entries lead to shared tables. -/
theorem root (h : Typed F s K) (htop : 0 < F.top) {root half : Nat} (hroot : K root = none) (hal : root % pageSize = 0)
    (hlow : ∀ j < half, j < 512 → F.entryPresent (s'.mem root j) = false)
    (hhigh : ∀ {j c : Nat}, half ≤ j → Points F s' root F.top j c → K c = some ⟨F.top - 1, 0⟩)
    (hmem : ∀ f, f ≠ root → s'.mem f = s.mem f) (hmeta : s'.metadata = s.metadata) :
    Typed F s' (Function.update K root (some ⟨F.top, half⟩)) := by
  have hold : ∀ {f : Nat} {k : Kind}, Function.update K root (some ⟨F.top, half⟩) f = some k →
      f = root ∧ k = ⟨F.top, half⟩ ∨ f ≠ root ∧ K f = some k := by
    intro f k hk
    by_cases hfr : f = root
    · subst hfr
      rw [Function.update_self] at hk
      exact Or.inl ⟨rfl, (Option.some.inj hk).symm⟩
    · rw [Function.update_of_ne hfr] at hk
      exact Or.inr ⟨hfr, hk⟩
  have hpt : ∀ {f l i c : Nat}, f ≠ root → Points F s' f l i c → Points F s f l i c := fun hfr hp => by
    have hm := hmem _ hfr
    exact ⟨hp.lt, hm ▸ hp.present, hm ▸ hp.not_leaf, hm ▸ hp.phys⟩
  have hnew : ∀ {f : Nat} {k : Kind}, K f = some k → Function.update K root (some ⟨F.top, half⟩) f = some k := by
    intro f k hk
    rw [Function.update_of_ne]
    · exact hk
    · rintro rfl
      rw [hroot] at hk
      cases hk
  have hnone := h.metadata_eq_none hroot hal
  have hroot_own : ∀ {l i c : Nat}, i < half → ¬ Points F s' root l i c := by
    intro l i c hi hp
    have hpr := hp.present
    rw [hlow i hi hp.lt] at hpr
    cases hpr
  constructor
  case level_le =>
    intro f k hk
    rcases hold hk with ⟨-, rfl⟩ | ⟨-, hkf⟩
    · exact Nat.le_refl _
    · exact h.level_le hkf
  case aligned =>
    intro f k hk
    rcases hold hk with ⟨rfl, -⟩ | ⟨-, hkf⟩
    · exact hal
    · exact h.aligned hkf
  case child =>
    intro f l hf i c hk hp
    rcases hold hk with ⟨rfl, hkind⟩ | ⟨hfr, hkf⟩
    · obtain ⟨hl, rfl⟩ : l + 1 = F.top ∧ hf = half := ⟨congrArg Kind.level hkind, congrArg Kind.half hkind⟩
      have hi : hf ≤ i := Nat.le_of_not_lt fun hi => hroot_own hi hp
      rw [hl] at hp
      have hkc := hnew (hhigh hi hp)
      rw [hkc, Kind.child, if_neg (Nat.not_lt.2 hi), ← hl, Nat.add_sub_cancel]
    · exact hnew (h.child hkf (hpt hfr hp))
  case inj =>
    intro f₁ l₁ h₁ i₁ f₂ l₂ h₂ i₂ c hk₁ hk₂ hi₁ hi₂ hp₁ hp₂
    rcases hold hk₁ with ⟨rfl, hkind⟩ | ⟨hfr₁, hkf₁⟩
    · obtain rfl : h₁ = half := congrArg Kind.half hkind
      exact absurd hp₁ (hroot_own hi₁)
    rcases hold hk₂ with ⟨rfl, hkind⟩ | ⟨hfr₂, hkf₂⟩
    · obtain rfl : h₂ = half := congrArg Kind.half hkind
      exact absurd hp₂ (hroot_own hi₂)
    exact h.inj hkf₁ hkf₂ hi₁ hi₂ (hpt hfr₁ hp₁) (hpt hfr₂ hp₂)
  case leaf =>
    intro f hf i hk hi hp
    rcases hold hk with ⟨-, hkind⟩ | ⟨hfr, hkf⟩
    · have hl : 0 = F.top := congrArg Kind.level hkind
      omega
    · rw [hmem f hfr] at hp ⊢
      exact h.leaf hkf hi hp
  case mapped =>
    intro f l hf i phys g flags hk hi hm
    have hst : s'.stat f i = s.stat f i := by rw [Memory.stat, Memory.stat, hmeta]
    rw [hst] at hm
    rcases hold hk with ⟨rfl, -⟩ | ⟨hfr, hkf⟩
    · rw [stat_eq_invalid hnone] at hm
      cases hm
    · rw [hmem f hfr]
      exact h.mapped hkf hi hm
  case described =>
    intro d hd
    rw [hmeta] at hd
    obtain ⟨f, hf, rfl⟩ := h.described hd
    obtain ⟨k, hk⟩ := Option.ne_none_iff_exists'.1 hf
    exact ⟨f, by rw [hnew hk]; exact Option.some_ne_none _, rfl⟩

end Typed

end Koros.Mmu
