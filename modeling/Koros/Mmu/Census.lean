import Koros.Mmu.Kinds

/-!
# Table pages and frames

`Census` adds to `Typed` where the table pages are: frames of the allocator (`tables`), or the kernel's own pages outside
of its regions. The frames `data` are the callers'. Every transaction keeps it:

- `mapAt_census`: tables are added in free frames, and one status is written, that of the entry for the address;
- `markIn_marks`: statuses are written for entries inside the range;
- `unmapIn_sheds`: tables are given back, each with its metadata.
-/
set_option autoImplicit false

namespace Koros.Mmu

open Koros.Frame

/-- The table pages with their kinds; `tables` are those that the allocator handed out. -/
structure Census (F : PteFormat) (bound : Nat) (other : List Extent) (kernel : Nat → Prop) (data : List Nat) (s : Memory)
    (K : Nat → Option Kind) (tables : List Nat) : Prop where
  typed : Typed F s K
  pool : Pool bound s.frames (tables ++ data) other
  mem_iff : ∀ f, f ∈ tables ↔ K f ≠ none ∧ ¬ kernel f
  outside : ∀ f, kernel f → Outside s.frames f
  shared : ∀ f, kernel f → ∃ l, K f = some ⟨l, 0⟩

/-- The table page of the walk for `va`, `n` levels below the root. -/
def tableAt (F : PteFormat) (s : Memory) (root va : Nat) : (n : Nat) → Option Nat
  | 0 => some root
  | n + 1 => do
    let page ← tableAt F s root va n
    let entry := s.mem page (tableIndex va (F.top - n))
    if F.entryPresent entry && !F.entryIsLeaf entry (F.top - n) then some (F.entryPhys entry (F.top - n)) else none

section Walk

variable {F : PteFormat} {s s' : Memory} {K : Nat → Option Kind} {root half va : Nat}

theorem tableAt_points {n page l c : Nat} (h : tableAt F s root va n = some page) (hl : n + (l + 1) = F.top)
    (hp : Points F s page (l + 1) (tableIndex va (l + 1)) c) : tableAt F s root va (n + 1) = some c := by
  have hsub : F.top - n = l + 1 := by omega
  rw [tableAt, h]
  simp [hsub, hp.present, hp.not_leaf, hp.phys]

theorem points_of_tableAt {n c : Nat} (h : tableAt F s root va (n + 1) = some c) :
    ∃ page, tableAt F s root va n = some page ∧ Points F s page (F.top - n) (tableIndex va (F.top - n)) c := by
  simp only [tableAt, Option.bind_eq_bind, Option.bind_eq_some_iff] at h
  obtain ⟨page, hpage, h⟩ := h
  split at h
  · rename_i hc
    obtain ⟨hpr, hnl⟩ := Bool.and_eq_true_iff.1 hc
    exact ⟨page, hpage, tableIndex_lt va _, hpr, by simpa using hnl, Option.some.inj h⟩
  · cases h

/-- A page on a walk is a table of its level. -/
theorem Typed.tableAt_kind (h : Typed F s K) (hroot : K root = some ⟨F.top, half⟩) : ∀ {n page : Nat}, n ≤ F.top →
    tableAt F s root va n = some page → ∃ half', K page = some ⟨F.top - n, half'⟩
  | 0, page, _, he => by
    cases he
    exact ⟨half, hroot⟩
  | n + 1, page, hn, he => by
    obtain ⟨parent, hparent, hp⟩ := points_of_tableAt he
    obtain ⟨half', hk⟩ := h.tableAt_kind hroot (Nat.le_of_succ_le hn) hparent
    have hl : F.top - n = F.top - (n + 1) + 1 := by omega
    rw [hl] at hk hp
    exact ⟨_, h.child hk hp⟩

/-- A walk reads one entry of each table above. -/
theorem tableAt_congr : ∀ {n : Nat}, (∀ m < n, ∀ page, tableAt F s root va m = some page →
      s'.mem page (tableIndex va (F.top - m)) = s.mem page (tableIndex va (F.top - m))) →
    tableAt F s' root va n = tableAt F s root va n
  | 0, _ => rfl
  | n + 1, h => by
    rw [tableAt, tableAt, tableAt_congr fun m hm => h m (Nat.lt_succ_of_lt hm)]
    cases hp : tableAt F s root va n with
    | none => rfl
    | some page =>
      have he := h n (Nat.lt_succ_self n) page hp
      simp only [Option.bind_eq_bind, Option.bind_some, he]

/-- A walk down to a table does not read that table or a page that is no table. -/
theorem Typed.tableAt_eq (h : Typed F s K) (hroot : K root = some ⟨F.top, half⟩) {n l half' page : Nat}
    (hn : n + l = F.top) (hpage : K page = some ⟨l, half'⟩)
    (hmem : ∀ f, K f ≠ none → f ≠ page → s'.mem f = s.mem f) : tableAt F s' root va n = tableAt F s root va n := by
  refine tableAt_congr fun m hm p hp => ?_
  obtain ⟨half'', hk⟩ := h.tableAt_kind hroot (by omega) hp
  rw [hmem p (by rw [hk]; simp)]
  rintro rfl
  rw [hpage] at hk
  have hl : l = F.top - m := congrArg Kind.level (Option.some.inj hk)
  omega

end Walk

section Mapping

variable {F : PteFormat} {bound : Nat} {other : List Extent} {kernel : Nat → Prop} {data tables : List Nat} {s s' : Memory}
  {K : Nat → Option Kind}

/-- A frame that the allocator hands out is no table page. -/
theorem Census.alloc (h : Census F bound other kernel data s K tables) {child : Nat}
    {a : FrameAllocator} (hal : allocFrame s.frames = some (some child, a)) :
    K child = none ∧ child % pageSize = 0 ∧ ¬ kernel child ∧ ¬ Marked s.frames child ∧
      Pool bound a (child :: (tables ++ data)) other ∧ ∀ f, kernel f → Outside a f := by
  have hranges : ranges a = ranges s.frames := allocFrames_ranges hal
  have hout : ∀ f, kernel f → Outside a f := fun f hf => (h.outside f hf).of_ranges hranges
  obtain ⟨_, ⟨⟩, hpool, -⟩ | ⟨⟨⟩, -⟩ := allocFrame_cases h.pool hal
  have hin : child ∈ child :: (tables ++ data) := List.mem_cons_self ..
  have hnk : ¬ kernel child := fun hk => (hout child hk).not_marked (hpool.marked hin)
  have hnot := (List.nodup_cons.1 hpool.nodup).1
  refine ⟨?_, (hpool.placed hin).1, hnk, ?_, hpool, hout⟩
  · by_contra hne
    exact hnot (List.mem_append_left _ ((h.mem_iff child).2 ⟨hne, hnk⟩))
  · exact h.pool.not_marked (hpool.placed hin).1 (fun e he => pool_not_covers hpool hin he) hnot

/-- A new table is linked into an entry that pointed to none. -/
theorem Census.link (hF : F.Lawful) (h : Census F bound other kernel data s K tables)
    {page l half i child : Nat} {filler : Nat → Nat} {a : FrameAllocator} (hpage : K page = some ⟨l + 1, half⟩)
    (hal : allocFrame s.frames = some (some child, a)) (hok : FrameOk child)
    (hfill : ∀ j < 512, F.entryPresent (filler j) = true → F.entryIsLeaf (filler j) l = true)
    (hst : ∀ phys flags g, s'.stat page i ≠ .mapped phys flags g)
    (hstat : ∀ f j, f % pageSize = 0 → ¬ (f = page ∧ j = i) → s'.stat f j = s.stat f j)
    (hmeta : ∀ d, s'.metadata d ≠ none → s.metadata d ≠ none ∨ d = page / pageSize)
    (hmem : ∀ f j, s'.mem f j =
      if f = page ∧ j = i then F.tableEntry child else if f = child then filler j else s.mem f j)
    (hfr : s'.frames = a) :
    Census F bound other kernel data s' (Function.update K child (some (Kind.child l half i))) (child :: tables) := by
  obtain ⟨hK, -, hnk, -, hpool, hout⟩ := h.alloc hal
  refine ⟨h.typed.link hF hpage hK hok hfill hst hstat hmeta hmem, ?_, ?_, ?_, ?_⟩
  · rw [hfr]
    exact hpool
  · intro f
    rw [List.mem_cons]
    by_cases hfc : f = child
    · subst hfc
      rw [Function.update_self]
      exact ⟨fun _ => ⟨Option.some_ne_none _, hnk⟩, fun _ => Or.inl rfl⟩
    · rw [Function.update_of_ne hfc, ← h.mem_iff f]
      exact ⟨fun hf => hf.resolve_left hfc, Or.inr⟩
  · rw [hfr]
    exact hout
  · intro f hf
    obtain ⟨l', hk⟩ := h.shared f hf
    refine ⟨l', ?_⟩
    rw [Function.update_of_ne]
    · exact hk
    · rintro rfl
      exact hnk hf

/-- Tables were added in free frames, and the entries that got a status are `touched`. -/
structure Adds (K : Nat → Option Kind) (s : Memory) (K' : Nat → Option Kind) (s' : Memory) (touched : Nat → Nat → Prop) :
    Prop where
  keep : ∀ {f : Nat} {k : Kind}, K f = some k → K' f = some k
  free : ∀ {f : Nat}, K' f ≠ none → K f = none → ¬ Marked s.frames f
  stat : ∀ {f j : Nat}, K' f ≠ none → s'.stat f j ≠ .invalid → K f ≠ none ∧ s.stat f j ≠ .invalid ∨ touched f j

theorem Adds.refl (K : Nat → Option Kind) (s : Memory) (touched : Nat → Nat → Prop) : Adds K s K s touched :=
  ⟨fun h => h, fun hne h => absurd h hne, fun hne h => Or.inl ⟨hne, h⟩⟩

theorem Adds.mono {K' : Nat → Option Kind} {t t' : Nat → Nat → Prop} (h : Adds K s K' s' t) (ht : ∀ f j, t f j → t' f j) :
    Adds K s K' s' t' :=
  ⟨h.keep, h.free, fun hne hs => (h.stat hne hs).imp_right (ht _ _)⟩

/-- A table is linked, then more happens. -/
theorem Adds.trans {K₁ K₂ : Nat → Option Kind} {s₁ s₂ : Memory} {tables₁ : List Nat} {t₁ t₂ : Nat → Nat → Prop}
    (hc : Census F bound other kernel data s K tables) (hc₁ : Census F bound other kernel data s₁ K₁ tables₁)
    (hc₂ : Typed F s₂ K₂) (h₁ : Adds K s K₁ s₁ t₁) (h₂ : Adds K₁ s₁ K₂ s₂ t₂) :
    Adds K s K₂ s₂ fun f j => t₁ f j ∨ t₂ f j := by
  have hsub : ∀ f ∈ tables ++ data, f ∈ tables₁ ++ data := by
    intro f hf
    rcases List.mem_append.1 hf with hf | hf
    · obtain ⟨hk, hnk⟩ := (hc.mem_iff f).1 hf
      obtain ⟨k, hk⟩ := Option.ne_none_iff_exists'.1 hk
      exact List.mem_append_left _ ((hc₁.mem_iff f).2 ⟨by rw [h₁.keep hk]; simp, hnk⟩)
    · exact List.mem_append_right _ hf
  refine ⟨fun hk => h₂.keep (h₁.keep hk), fun {f} hne hK => ?_, fun {f j} hne hs => ?_⟩
  · by_cases hK₁ : K₁ f = none
    · intro hm
      obtain ⟨k, hk⟩ := Option.ne_none_iff_exists'.1 hne
      exact h₂.free hne hK₁ (hc.pool.marked_mono hc₁.pool hsub (hc₂.aligned hk) hm)
    · exact h₁.free hK₁ hK
  · rcases h₂.stat hne hs with ⟨hne₁, hs₁⟩ | ht
    · exact (h₁.stat hne₁ hs₁).imp_right Or.inl
    · exact Or.inr (Or.inr ht)

/-- The entry at `level` that the walk for `va` ends at. -/
def EntryOf (F : PteFormat) (s : Memory) (root va level f j : Nat) : Prop :=
  tableAt F s root va (F.top - level) = some f ∧ j = tableIndex va level

/-- A table was linked. -/
theorem Adds.link (h : Census F bound other kernel data s K tables) {page l half i child : Nat}
    {a : FrameAllocator} (hal : allocFrame s.frames = some (some child, a)) (hpage : K page = some ⟨l + 1, half⟩)
    (hst : s'.stat page i ≠ .invalid → s.stat page i ≠ .invalid)
    (hstat : ∀ f j, f % pageSize = 0 → ¬ (f = page ∧ j = i) → s'.stat f j = s.stat f j) :
    Adds K s (Function.update K child (some (Kind.child l half i))) s' fun _ _ => False := by
  obtain ⟨hK, hchild, -, hfree, -⟩ := h.alloc hal
  refine ⟨fun {f k} hk => ?_, fun {f} hne hKf => ?_, fun {f j} hne hs => ?_⟩
  · rw [Function.update_of_ne]
    · exact hk
    · rintro rfl
      rw [hK] at hk
      cases hk
  · by_cases hfc : f = child
    · rw [hfc]
      exact hfree
    · rw [Function.update_of_ne hfc] at hne
      exact absurd hKf hne
  · left
    by_cases hfc : f = child
    · subst hfc
      have hfp : ¬ (f = page ∧ j = i) := by
        rintro ⟨rfl, -⟩
        rw [hpage] at hK
        cases hK
      rw [hstat f j hchild hfp, stat_eq_invalid (h.typed.metadata_eq_none hK hchild)] at hs
      exact absurd rfl hs
    · rw [Function.update_of_ne hfc] at hne
      obtain ⟨k, hk⟩ := Option.ne_none_iff_exists'.1 hne
      refine ⟨hne, ?_⟩
      by_cases hfp : f = page ∧ j = i
      · obtain ⟨rfl, rfl⟩ := hfp
        exact hst hs
      · rwa [hstat f j (h.typed.aligned hk) hfp] at hs

/-- The frame allocator has no frame left. -/
theorem Census.alloc_none (h : Census F bound other kernel data s K tables) {a : FrameAllocator}
    (hal : allocFrame s.frames = some (none, a)) : a = s.frames := by
  obtain ⟨_, ⟨⟩, -⟩ | ⟨-, ha, -⟩ := allocFrame_cases h.pool hal
  exact ha

/-- The children of a leaf that is split. -/
def fillerOf (F : PteFormat) (entry l j : Nat) : Nat :=
  if j < ptEntries then F.leafEntry (F.entryPhys entry (l + 1) + j * span l) (F.entryFlags entry) l else 0

/-- What the loop of `RCursor::map` can do at a table page, with the entry for `va`. -/
inductive MapStep (F : PteFormat) (va phys : Nat) (flags : MappingFlags) (target level page : Nat) (s : Memory) :
    Except MapError Unit → Memory → Prop
  | blocked (htarget : level = target) (hpr : F.entryPresent (s.mem page (tableIndex va level)) = true)
      (hst : s.stat page (tableIndex va level) ≠ .invalid) :
      MapStep F va phys flags target level page s (.error .blockedByExistingMapping) s
  | written {s' : Memory} (htarget : level = target)
      (hst : F.entryPresent (s.mem page (tableIndex va level)) = true → s.stat page (tableIndex va level) = .invalid)
      (hset : (s.setEntry page (tableIndex va level) (F.leafEntry phys flags level)).setStatus page (tableIndex va level)
        (.mapped phys flags (span target)) = some s') : MapStep F va phys flags target level page s (.ok ()) s'
  /-- A table is needed and no frame is left. -/
  | exhausted {a : FrameAllocator} (hne : level ≠ target) (hal : allocFrame s.frames = some (none, a)) :
      MapStep F va phys flags target level page s (.error .outOfMemory) { s with frames := a }
  /-- An empty table is linked. -/
  | grown {l child : Nat} {s₁ s' : Memory} {r : Except MapError Unit} (hne : level ≠ target) (hlevel : level = l + 1)
      (hpr : F.entryPresent (s.mem page (tableIndex va level)) = false)
      (hal : allocFrame s.frames = some (some child, s₁.frames)) (hok : TableOk child)
      (hmem : ∀ f j, s₁.mem f j =
        if f = page ∧ j = tableIndex va level then F.tableEntry child else if f = child then 0 else s.mem f j)
      (hmeta : s₁.metadata = s.metadata) (hrec : Memory.mapAt F va phys flags target l child s₁ = some (r, s')) :
      MapStep F va phys flags target level page s r s'
  /-- A larger leaf is replaced by a table of leaves. -/
  | split {l child : Nat} {s₁ s' : Memory} {r : Except MapError Unit} (hne : level ≠ target) (hlevel : level = l + 1)
      (hpr : F.entryPresent (s.mem page (tableIndex va level)) = true)
      (hlf : F.entryIsLeaf (s.mem page (tableIndex va level)) level = true)
      (hal : allocFrame s.frames = some (some child, s₁.frames)) (hok : TableOk child)
      (hmem : ∀ f j, s₁.mem f j = if f = page ∧ j = tableIndex va level then F.tableEntry child
        else if f = child then fillerOf F (s.mem page (tableIndex va level)) l j else s.mem f j)
      (hstat : ∀ f j, f % pageSize = 0 → s₁.stat f j =
        if f = page ∧ j = tableIndex va level then .invalid else s.stat f j)
      (hmeta : ∀ d, s₁.metadata d ≠ none → s.metadata d ≠ none ∨ d = page / pageSize)
      (hrec : Memory.mapAt F va phys flags target l child s₁ = some (r, s')) :
      MapStep F va phys flags target level page s r s'
  | down {l c : Nat} {s' : Memory} {r : Except MapError Unit} (hne : level ≠ target) (hlevel : level = l + 1)
      (hp : Points F s page (l + 1) (tableIndex va (l + 1)) c)
      (hrec : Memory.mapAt F va phys flags target l c s = some (r, s')) :
      MapStep F va phys flags target level page s r s'

theorem status_some {page i : Nat} {st : PageStatus} (h : s.status page i = some st) : st = s.stat page i := by
  simp only [Memory.status, Option.bind_eq_bind, Option.bind_eq_some_iff] at h
  obtain ⟨d, hd, h⟩ := h
  have hok : TableOk page := tableOk_of_lockPage (by simp [Memory.lockPage, hd])
  rw [hok.descriptorOf] at hd
  cases hd
  exact (Option.some.inj h).symm

/-- What `split_leaf` can do. -/
theorem splitLeaf_cases {page i l : Nat} {r : Except MapError Unit} (he : s.splitLeaf F page i (l + 1) = some (r, s')) :
    (∃ a, allocFrame s.frames = some (none, a) ∧ r = .error .outOfMemory ∧ s' = { s with frames := a }) ∨
    ∃ child, allocFrame s.frames = some (some child, s'.frames) ∧ r = .ok () ∧ TableOk child ∧
      (∀ f j, s'.mem f j = if f = page ∧ j = i then F.tableEntry child
        else if f = child then fillerOf F (s.mem page i) l j else s.mem f j) ∧
      (∀ f j, f % pageSize = 0 → s'.stat f j = if f = page ∧ j = i then .invalid else s.stat f j) ∧
      ∀ d, s'.metadata d ≠ none → s.metadata d ≠ none ∨ d = page / pageSize := by
  simp only [Memory.splitLeaf, Option.bind_eq_bind, Option.bind_eq_some_iff] at he
  obtain ⟨⟨q, a⟩, hal, he⟩ := he
  cases q with
  | none =>
    cases he
    exact Or.inl ⟨a, hal, rfl, rfl⟩
  | some child =>
    simp only [Option.bind_eq_some_iff] at he
    obtain ⟨s₁, hset, _, hlock, he⟩ := he
    cases he
    obtain ⟨-, hstat, hmeta⟩ := setStatus_stat hset
    obtain ⟨hmem, hfr⟩ := setStatus_some hset
    refine Or.inr ⟨child, by rw [hfr]; exact hal, rfl, tableOk_of_lockPage (by rw [hlock]; simp), fun f j => ?_, hstat, hmeta⟩
    rw [hmem, mem_setEntry]
    split
    · rfl
    · by_cases hfc : f = child
      · rw [if_pos hfc, hfc]
        exact congrFun (Function.update_self child (fillerOf F (s.mem page i) l) s.mem) j
      · rw [if_neg hfc]
        exact congrFun (Function.update_of_ne hfc _ s.mem) j

/-- The end of the loop, at the target level. -/
theorem mapAt_target {va phys page target : Nat} {flags : MappingFlags} {r : Except MapError Unit}
    (he : Memory.mapAt F va phys flags target target page s = some (r, s')) :
    MapStep F va phys flags target target page s r s' := by
  rw [Memory.mapAt.eq_def] at he
  dsimp only at he
  rw [if_pos rfl] at he
  simp only [Option.bind_eq_bind] at he
  -- the status that decides, whether it is read or not
  obtain ⟨st, hst, he⟩ : ∃ st, ((F.entryPresent (s.mem page (tableIndex va target)) = true ∧
      st = s.stat page (tableIndex va target)) ∨
      (F.entryPresent (s.mem page (tableIndex va target)) = false ∧ st = .invalid)) ∧
      (if st ≠ .invalid then some (.error .blockedByExistingMapping, s)
        else ((s.setEntry page (tableIndex va target) (F.leafEntry phys flags target)).setStatus page
          (tableIndex va target) (.mapped phys flags (span target))).bind fun s => some (.ok (), s)) = some (r, s') := by
    split at he
    · rename_i hpr
      obtain ⟨st, hst, he⟩ := Option.bind_eq_some_iff.1 he
      exact ⟨st, Or.inl ⟨hpr, status_some hst⟩, he⟩
    · rename_i hpr
      exact ⟨.invalid, Or.inr ⟨by simpa using hpr, rfl⟩, he⟩
  split at he
  · rename_i hne
    cases he
    rcases hst with ⟨hpr, rfl⟩ | ⟨-, rfl⟩
    · exact .blocked rfl hpr hne
    · exact absurd rfl hne
  · rename_i hinv
    obtain ⟨s₁, hset, he⟩ := Option.bind_eq_some_iff.1 he
    cases he
    refine .written rfl (fun hpr => ?_) hset
    rcases hst with ⟨-, rfl⟩ | ⟨hpr', -⟩
    · exact not_not.1 hinv
    · rw [hpr'] at hpr
      cases hpr

/-- **One step of `map`.** -/
theorem mapAt_cases (hF : F.Lawful) {va phys level page target : Nat} {flags : MappingFlags} {r : Except MapError Unit}
    (he : Memory.mapAt F va phys flags target level page s = some (r, s')) :
    MapStep F va phys flags target level page s r s' := by
  by_cases htarget : level = target
  · subst htarget
    exact mapAt_target he
  cases level with
  | zero =>
    rw [Memory.mapAt] at he
    dsimp only at he
    rw [if_neg htarget] at he
    cases he
  | succ level =>
    rw [Memory.mapAt] at he
    dsimp only at he
    rw [if_neg htarget] at he
    simp only [Option.bind_eq_bind] at he
    split at he
    · rename_i hnp
      have hpr : F.entryPresent (s.mem page (tableIndex va (level + 1))) = false := by simpa using hnp
      obtain ⟨⟨q, a⟩, hal, he⟩ := Option.bind_eq_some_iff.1 he
      cases q with
      | none =>
        cases he
        exact .exhausted htarget hal
      | some child =>
        obtain ⟨_, hlock, he⟩ := Option.bind_eq_some_iff.1 he
        have hok : TableOk child := tableOk_of_lockPage (by rw [hlock]; simp)
        generalize hs₁ : ({ s with frames := a }.zeroPage child).setEntry page (tableIndex va (level + 1))
          (F.tableEntry child) = s₁ at he
        refine .grown htarget rfl hpr ?_ hok (fun f j => ?_) ?_ he <;> subst hs₁
        · exact hal
        · rw [mem_setEntry, mem_zeroPage]
        · rfl
    · rename_i hpr
      have hpr' : F.entryPresent (s.mem page (tableIndex va (level + 1))) = true := by simpa using hpr
      split at he
      · rename_i hlf
        obtain ⟨⟨q, s₁⟩, hsplit, he⟩ := Option.bind_eq_some_iff.1 he
        rcases splitLeaf_cases hsplit with ⟨a, hal, rfl, hs₁⟩ | ⟨child, hal, rfl, hok, hmem, hstat, hmeta⟩
        · cases he
          rw [hs₁]
          exact .exhausted htarget hal
        · have hentry : s₁.mem page (tableIndex va (level + 1)) = F.tableEntry child := by
            rw [hmem, if_pos ⟨rfl, rfl⟩]
          dsimp only at he
          rw [hentry, hF.phys_table hok.frameOk] at he
          exact .split htarget rfl hpr' hlf hal hok hmem hstat hmeta he
      · rename_i hlf
        obtain ⟨_, -, he⟩ := Option.bind_eq_some_iff.1 he
        exact .down htarget rfl ⟨tableIndex_lt va _, hpr', by simpa using hlf, rfl⟩ he

/-- What linking a table gives: the table has a kind, and the other tables are as before. -/
structure Links (F : PteFormat) (bound : Nat) (other : List Extent) (kernel : Nat → Prop) (data tables : List Nat)
    (page i child : Nat) (k : Kind) (s s₁ : Memory) (K : Nat → Option Kind) : Prop where
  fresh : K child = none
  census : Census F bound other kernel data s₁ (Function.update K child (some k)) (child :: tables)
  adds : Adds K s (Function.update K child (some k)) s₁ fun _ _ => False
  entry : s₁.mem page i = F.tableEntry child
  mem_eq : ∀ f, K f ≠ none → f ≠ page → s₁.mem f = s.mem f

/-- A table with the given entries was linked. -/
theorem links_of_mem (hF : F.Lawful) (h : Census F bound other kernel data s K tables)
    {page l half i child : Nat} {filler : Nat → Nat} (hpage : K page = some ⟨l + 1, half⟩)
    (hal : allocFrame s.frames = some (some child, s'.frames)) (hok : TableOk child)
    (hfill : ∀ j < 512, F.entryPresent (filler j) = true → F.entryIsLeaf (filler j) l = true)
    (hinv : s'.stat page i ≠ .invalid → s.stat page i ≠ .invalid)
    (hst : ∀ phys flags g, s'.stat page i ≠ .mapped phys flags g)
    (hstat : ∀ f j, f % pageSize = 0 → ¬ (f = page ∧ j = i) → s'.stat f j = s.stat f j)
    (hmeta : ∀ d, s'.metadata d ≠ none → s.metadata d ≠ none ∨ d = page / pageSize)
    (hmem : ∀ f j, s'.mem f j =
      if f = page ∧ j = i then F.tableEntry child else if f = child then filler j else s.mem f j) :
    Links F bound other kernel data tables page i child (Kind.child l half i) s s' K := by
  obtain ⟨hK, -⟩ := h.alloc hal
  refine ⟨hK, h.link hF hpage hal hok.frameOk hfill hst hstat hmeta hmem rfl, Adds.link h hal hpage hinv hstat, ?_, ?_⟩
  · rw [hmem, if_pos ⟨rfl, rfl⟩]
  · intro f hf hfp
    funext j
    rw [hmem, if_neg fun hfj => hfp hfj.1, if_neg]
    rintro rfl
    exact hf hK

/-- An empty table was linked. -/
theorem links_of_grown (hF : F.Lawful) (h : Census F bound other kernel data s K tables)
    {page l half i child : Nat} (hpage : K page = some ⟨l + 1, half⟩) (hi₂ : i < 512)
    (hpr : F.entryPresent (s.mem page i) = false) (hal : allocFrame s.frames = some (some child, s'.frames))
    (hok : TableOk child)
    (hmem : ∀ f j, s'.mem f j = if f = page ∧ j = i then F.tableEntry child else if f = child then 0 else s.mem f j)
    (hmeta : s'.metadata = s.metadata) :
    Links F bound other kernel data tables page i child (Kind.child l half i) s s' K := by
  have hstat : ∀ f j, s'.stat f j = s.stat f j := fun f j => by rw [Memory.stat, Memory.stat, hmeta]
  have hzero : ∀ j < 512, F.entryPresent ((fun _ => 0) j) = true → F.entryIsLeaf ((fun _ => 0) j) l = true := by
    intro j _ hp
    rw [hF.present_zero] at hp
    cases hp
  refine links_of_mem hF h hpage hal hok hzero (fun hne => hstat page i ▸ hne) (fun p fl g hm => ?_)
    (fun f j _ _ => hstat f j) (fun d hd => Or.inl (hmeta ▸ hd)) hmem
  · rw [hstat] at hm
    rw [(h.typed.mapped hpage hi₂ hm).1] at hpr
    cases hpr

/-- The children of a leaf are leaves. -/
theorem fillerOf_leaf (hS : F.Splits) {entry l j : Nat} (hpr : F.entryPresent entry = true)
    (hlf : F.entryIsLeaf entry (l + 1) = true) (hj : j < 512) : F.entryIsLeaf (fillerOf F entry l j) l = true := by
  have hal : (F.entryPhys entry (l + 1) + j * span l) % 4096 = 0 := by
    have hp := hS.phys_aligned entry (l + 1)
    have hsp : j * span l % 4096 = 0 := by
      rw [span_eq, Nat.mul_left_comm]
      exact Nat.mul_mod_right ..
    omega
  rw [fillerOf, if_pos (show j < ptEntries from hj)]
  exact hS.filler_leaf _ _ _ hlf hpr hal

/-- A leaf was split. -/
theorem links_of_split (hF : F.Lawful) (hS : F.Splits)
    (h : Census F bound other kernel data s K tables) {page l half i child : Nat} (hpage : K page = some ⟨l + 1, half⟩)
    (hpr : F.entryPresent (s.mem page i) = true) (hlf : F.entryIsLeaf (s.mem page i) (l + 1) = true)
    (hal : allocFrame s.frames = some (some child, s'.frames)) (hok : TableOk child)
    (hmem : ∀ f j, s'.mem f j = if f = page ∧ j = i then F.tableEntry child
      else if f = child then fillerOf F (s.mem page i) l j else s.mem f j)
    (hstat : ∀ f j, f % pageSize = 0 → s'.stat f j = if f = page ∧ j = i then .invalid else s.stat f j)
    (hmeta : ∀ d, s'.metadata d ≠ none → s.metadata d ≠ none ∨ d = page / pageSize) :
    Links F bound other kernel data tables page i child (Kind.child l half i) s s' K := by
  have hinv : s'.stat page i = .invalid := by rw [hstat page i (h.typed.aligned hpage), if_pos ⟨rfl, rfl⟩]
  refine links_of_mem hF h hpage hal hok (fun j hj _ => ?_) (fun hne => absurd hinv hne) (by rw [hinv]; simp)
    (fun f j hf hfj => by rw [hstat f j hf, if_neg hfj]) hmeta hmem
  exact fillerOf_leaf hS hpr hlf hj

/-- A pointer to a new table continues the walk. -/
theorem tableAt_linked (hF : F.Lawful) {root half va n page l half' child : Nat} (h : Typed F s K)
    (hroot : K root = some ⟨F.top, half⟩) (hpage : K page = some ⟨l + 1, half'⟩) (hn : n + (l + 1) = F.top)
    (hwalk : tableAt F s root va n = some page) (hok : FrameOk child)
    (hentry : s'.mem page (tableIndex va (l + 1)) = F.tableEntry child)
    (hmem : ∀ f, K f ≠ none → f ≠ page → s'.mem f = s.mem f) : tableAt F s' root va (n + 1) = some child := by
  have hwalk' : tableAt F s' root va n = some page := by
    rw [h.tableAt_eq hroot hn hpage hmem]
    exact hwalk
  refine tableAt_points hwalk' hn ⟨tableIndex_lt va _, ?_, ?_, ?_⟩ <;> rw [hentry]
  · exact hF.present_table hok
  · exact hF.not_leaf_table hok l
  · exact hF.phys_table hok (l + 1)

/-- The last step of a mapping: the leaf and its status. -/
theorem setLeaf_census (hS : F.Splits) {root half va n page half' phys target : Nat} {flags : MappingFlags}
    {st : PageStatus} (h : Census F bound other kernel data s K tables) (hroot : K root = some ⟨F.top, half⟩)
    (hpage : K page = some ⟨target, half'⟩) (hn : n + target = F.top) (hwalk : tableAt F s root va n = some page)
    (hleaf : F.entryIsLeaf (F.leafEntry phys flags target) target = true)
    (he : (s.setEntry page (tableIndex va target) (F.leafEntry phys flags target)).setStatus page (tableIndex va target) st =
      some s') : Census F bound other kernel data s' K tables ∧ Adds K s K s' (EntryOf F s' root va target) := by
  obtain ⟨hmem, hfr⟩ := setStatus_some he
  obtain ⟨-, hstat, -⟩ := setStatus_stat he
  have hpresent := hS.leaf_present phys flags target
  refine ⟨⟨?_, ?_, h.mem_iff, ?_, h.shared⟩, fun hk => hk, fun hne hK => absurd hK hne, fun {f j} hne hs => ?_⟩
  · exact h.typed.setLeaf hpage (fun _ => hleaf) (fun _ _ _ _ => hpresent) he
  · rw [hfr]
    exact h.pool
  · rw [hfr]
    exact h.outside
  · obtain ⟨k, hk⟩ := Option.ne_none_iff_exists'.1 hne
    rw [hstat f j (h.typed.aligned hk)] at hs
    split at hs
    · rename_i hfj
      obtain ⟨rfl, rfl⟩ := hfj
      refine Or.inr ⟨?_, rfl⟩
      rw [← hn, Nat.add_sub_cancel, h.typed.tableAt_eq hroot hn hpage]
      · exact hwalk
      · intro g _ hg
        rw [hmem]
        exact Function.update_of_ne hg ..
    · exact Or.inl ⟨hne, hs⟩

/-- What `map` leaves behind, whether it succeeds or not. -/
theorem mapAt_census (hF : F.Lawful) (hS : F.Splits) {root half va phys target : Nat}
    {flags : MappingFlags} (hleaf : F.entryIsLeaf (F.leafEntry phys flags target) target = true) :
    ∀ (level : Nat) {page half' n : Nat} {s s' : Memory} {K : Nat → Option Kind} {tables : List Nat}
      {r : Except MapError Unit}, Census F bound other kernel data s K tables → K root = some ⟨F.top, half⟩ →
    K page = some ⟨level, half'⟩ → n + level = F.top → tableAt F s root va n = some page →
    Memory.mapAt F va phys flags target level page s = some (r, s') →
    ∃ K' tables', Census F bound other kernel data s' K' tables' ∧
      (∀ f, K' f ≠ none → K f = none → TableOk f) ∧
      Adds K s K' s' fun f j => r = .ok () ∧ EntryOf F s' root va target f j := by
  intro level
  induction level using Nat.strong_induction_on with
  | _ level ih =>
    intro page half' n s s' K tables r h hroot hpage hn hwalk he
    -- after a table was linked the walk goes on in it
    have hnext : ∀ {l child : Nat} {s₁ : Memory}, level = l + 1 → TableOk child →
        Links F bound other kernel data tables page (tableIndex va level) child
          (Kind.child l half' (tableIndex va level)) s s₁ K →
        Memory.mapAt F va phys flags target l child s₁ = some (r, s') →
        ∃ K' tables', Census F bound other kernel data s' K' tables' ∧
          (∀ f, K' f ≠ none → K f = none → TableOk f) ∧
          Adds K s K' s' fun f j => r = .ok () ∧ EntryOf F s' root va target f j := by
      intro l child s₁ hl hok hlinks hrec
      subst hl
      have hwalk₁ := tableAt_linked hF h.typed hroot hpage hn hwalk hok.frameOk hlinks.entry hlinks.mem_eq
      obtain ⟨K', tables', h', hplaced, hadds'⟩ := ih l (Nat.lt_succ_self l) hlinks.census (hlinks.adds.keep hroot)
        (Function.update_self ..) (by omega) hwalk₁ hrec
      refine ⟨K', tables', h', fun f hf hKf => ?_, ?_⟩
      · by_cases hfc : f = child
        · rw [hfc]
          exact hok
        · exact hplaced f hf (by rw [Function.update_of_ne hfc]; exact hKf)
      · exact (Adds.trans h hlinks.census h'.typed hlinks.adds hadds').mono fun f j ht => ht.resolve_left id
    have hsame : ∀ {r' : Except MapError Unit}, r = r' → ∃ K' tables', Census F bound other kernel data s K' tables' ∧
        (∀ f, K' f ≠ none → K f = none → TableOk f) ∧
        Adds K s K' s fun f j => r = .ok () ∧ EntryOf F s root va target f j :=
      fun _ => ⟨K, tables, h, fun f hf hKf => absurd hKf hf, Adds.refl ..⟩
    cases mapAt_cases hF he with
    | blocked htarget hpr hst => exact hsame rfl
    | written htarget hst hset =>
      subst htarget
      obtain ⟨h', hadds⟩ := setLeaf_census hS h hroot hpage hn hwalk hleaf hset
      exact ⟨K, tables, h', fun f hf hKf => absurd hKf hf, hadds.mono fun f j ht => ⟨rfl, ht⟩⟩
    | exhausted hne hal =>
      rw [h.alloc_none hal]
      exact hsame rfl
    | grown hne hlevel hpr hal hok hmem hmeta hrec =>
      subst hlevel
      exact hnext rfl hok (links_of_grown hF h hpage (tableIndex_lt va _) hpr hal hok hmem hmeta) hrec
    | split hne hlevel hpr hlf hal hok hmem hstat hmeta hrec =>
      subst hlevel
      exact hnext rfl hok (links_of_split hF hS h hpage hpr hlf hal hok hmem hstat hmeta) hrec
    | down hne hlevel hp hrec =>
      subst hlevel
      exact ih _ (Nat.lt_succ_self _) h hroot (h.typed.child hpage hp) (by omega) (tableAt_points hwalk hn hp) hrec

end Mapping

/-! ## Marking -/

theorem tableIndex_eq_span (va l : Nat) : tableIndex va l = va / span l % 512 := by
  rw [tableIndex_eq, region, span_eq, Nat.div_div_eq_div_mul]

theorem span_pos (l : Nat) : 0 < span l := by
  rw [span_eq]
  exact Nat.mul_pos (by decide) (Nat.pow_pos (by decide))

theorem div_span_succ (va l : Nat) : va / span (l + 1) = va / span l / 512 := by
  rw [Nat.div_div_eq_div_mul, span_eq, span_eq, Nat.pow_succ, Nat.mul_assoc]

/-- The entry, of any level, whose addresses are all in the range. -/
def EntryIn (F : PteFormat) (s : Memory) (root start stop f j : Nat) : Prop :=
  ∃ va level, level ≤ F.top ∧ EntryOf F s root va level f j ∧ start ≤ va / span level * span level ∧
    va / span level * span level + span level ≤ stop

section Marking

variable {F : PteFormat} {bound : Nat} {other : List Extent} {kernel : Nat → Prop} {data tables : List Nat}
  {K : Nat → Option Kind} {root : Nat} {flags : MappingFlags}

theorem tableAt_of_mem {s s' : Memory} (h : s'.mem = s.mem) (va n : Nat) : tableAt F s' root va n = tableAt F s root va n :=
  tableAt_congr fun m _ p _ => by rw [h]

theorem EntryIn.of_mem {s s' : Memory} (h : s'.mem = s.mem) {start stop f j : Nat} (he : EntryIn F s root start stop f j) :
    EntryIn F s' root start stop f j := by
  obtain ⟨va, level, hl, ⟨hw, hj⟩, h₁, h₂⟩ := he
  exact ⟨va, level, hl, ⟨by rw [tableAt_of_mem h]; exact hw, hj⟩, h₁, h₂⟩

/-- What marking leaves behind. -/
structure Marks (F : PteFormat) (bound : Nat) (other : List Extent) (kernel : Nat → Prop) (data tables : List Nat)
    (K : Nat → Option Kind) (root start stop : Nat) (s s' : Memory) : Prop where
  census : Census F bound other kernel data s' K tables
  mem_eq : s'.mem = s.mem
  frames_eq : s'.frames = s.frames
  adds : Adds K s K s' (EntryIn F s root start stop)

theorem Marks.refl {s : Memory} (h : Census F bound other kernel data s K tables) (start stop : Nat) :
    Marks F bound other kernel data tables K root start stop s s :=
  ⟨h, rfl, rfl, Adds.refl ..⟩

theorem Marks.trans {start stop : Nat} {s s₁ s₂ : Memory} (h₁ : Marks F bound other kernel data tables K root start stop s s₁)
    (h₂ : Marks F bound other kernel data tables K root start stop s₁ s₂) :
    Marks F bound other kernel data tables K root start stop s s₂ := by
  refine ⟨h₂.census, h₂.mem_eq.trans h₁.mem_eq, h₂.frames_eq.trans h₁.frames_eq, fun hk => hk,
    fun hne hK => absurd hK hne, fun {f j} hne hs => ?_⟩
  rcases h₂.adds.stat hne hs with ⟨hne₁, hs₁⟩ | ht
  · exact h₁.adds.stat hne₁ hs₁
  · exact Or.inr (ht.of_mem h₁.mem_eq.symm)

/-- A loop of calls that mark marks. -/
theorem foldlM_marks {start stop : Nat} {step : Memory → Nat → Option Memory} : ∀ (l : List Nat) {s s' : Memory},
    (∀ i ∈ l, ∀ s₁ s₂, Census F bound other kernel data s₁ K tables → s₁.mem = s.mem → step s₁ i = some s₂ →
      Marks F bound other kernel data tables K root start stop s₁ s₂) →
    Census F bound other kernel data s K tables → l.foldlM step s = some s' →
    Marks F bound other kernel data tables K root start stop s s'
  | [], s, s', _, h, he => by
    cases he
    exact Marks.refl h start stop
  | i :: l, s, s', hstep, h, he => by
    rw [List.foldlM_cons] at he
    obtain ⟨s₁, he₁, he⟩ := Option.bind_eq_some_iff.1 he
    have h₁ := hstep i (List.mem_cons_self ..) s s₁ h rfl he₁
    refine h₁.trans (foldlM_marks l (fun j hj s₂ s₃ hc hm => ?_) h₁.census he)
    exact hstep j (List.mem_cons_of_mem _ hj) s₂ s₃ hc (hm.trans h₁.mem_eq)

/-- `mark_in` at the table `page` of region `b`. -/
theorem markIn_marks {start stop : Nat} : ∀ (level : Nat)
    {page half' n b lo hi : Nat} {s s' : Memory}, Census F bound other kernel data s K tables →
    K page = some ⟨level, half'⟩ → n + level = F.top →
    (∀ va, va / span (level + 1) = b → tableAt F s root va n = some page) → start ≤ lo → hi ≤ stop →
    Memory.markIn F flags level page (b * span (level + 1)) lo hi s = some s' →
    Marks F bound other kernel data tables K root start stop s s' := by
  -- an entry: its region, and the mark it gets when the range covers it
  have hentry : ∀ {level page half' n b i lo hi : Nat} {s s₁ s₂ : Memory}, K page = some ⟨level, half'⟩ →
      n + level = F.top → (∀ va, va / span (level + 1) = b → tableAt F s root va n = some page) → i < 512 →
      Census F bound other kernel data s₁ K tables → s₁.mem = s.mem → start ≤ lo → hi ≤ stop →
      lo ≤ b * span (level + 1) + i * span level → b * span (level + 1) + i * span level + span level ≤ hi →
      s₁.setStatus page i (.allocated flags) = some s₂ →
      Marks F bound other kernel data tables K root start stop s₁ s₂ := by
    intro level page half' n b i lo hi s s₁ s₂ hpage hn hwalk hi' h hm hlo hhi h₁ h₂ he
    obtain ⟨hmem, hfr⟩ := setStatus_some he
    obtain ⟨-, hstat, -⟩ := setStatus_stat he
    have hne : K page ≠ none := by rw [hpage]; simp
    refine ⟨⟨h.typed.setStat hne (by simp) he, ?_, h.mem_iff, ?_, h.shared⟩, hmem, hfr, fun hk => hk,
      fun hne hK => absurd hK hne, fun {f j} hne hs => ?_⟩
    · rw [hfr]
      exact h.pool
    · rw [hfr]
      exact h.outside
    · obtain ⟨k, hk⟩ := Option.ne_none_iff_exists'.1 hne
      rw [hstat f j (h.typed.aligned hk)] at hs
      split at hs
      · rename_i hfj
        obtain ⟨rfl, rfl⟩ := hfj
        right
        have hpos := span_pos level
        have hstart : b * span (level + 1) + j * span level = (b * 512 + j) * span level := by
          rw [span_eq, span_eq, Nat.pow_succ]
          ring
        have hdiv : (b * 512 + j) * span level / span level = b * 512 + j := Nat.mul_div_cancel _ hpos
        refine ⟨(b * 512 + j) * span level, level, by omega, ⟨?_, ?_⟩, ?_, ?_⟩
        · rw [← hn, Nat.add_sub_cancel, tableAt_of_mem hm]
          refine hwalk _ ?_
          rw [div_span_succ, hdiv]
          omega
        · rw [tableIndex_eq_span, hdiv]
          omega
        · rw [hdiv, ← hstart]
          omega
        · rw [hdiv, ← hstart]
          omega
      · exact Or.inl ⟨hne, hs⟩
  intro level
  induction level with
  | zero =>
    intro page half' n b lo hi s s' h hpage hn hwalk hlo hhi he
    rw [Memory.markIn] at he
    refine foldlM_marks _ (fun i hi' s₁ s₂ hc hm he₁ => ?_) h he
    have hlt : i < 512 := by
      have := tableIndex_lt (hi - 1) 0
      have := List.mem_range'_1.1 hi'
      omega
    unfold Memory.markEntry at he₁
    dsimp only at he₁
    split at he₁
    · rename_i hcov
      exact hentry hpage hn hwalk hlt hc hm hlo hhi hcov.1 hcov.2 he₁
    · split at he₁
      · rename_i hpos
        exact absurd hpos.1 (Nat.lt_irrefl 0)
      · cases he₁
        exact Marks.refl hc start stop
  | succ level ih =>
    intro page half' n b lo hi s s' h hpage hn hwalk hlo hhi he
    rw [Memory.markIn] at he
    refine foldlM_marks _ (fun i hi' s₁ s₂ hc hm he₁ => ?_) h he
    have hlt : i < 512 := by
      have := tableIndex_lt (hi - 1) level.succ
      have := List.mem_range'_1.1 hi'
      omega
    unfold Memory.markEntry at he₁
    dsimp only at he₁
    split at he₁
    · rename_i hcov
      exact hentry hpage hn hwalk hlt hc hm hlo hhi hcov.1 hcov.2 he₁
    · split at he₁
      swap
      · cases he₁
        exact Marks.refl hc start stop
      rename_i hdown
      simp only [Option.bind_eq_bind] at he₁
      obtain ⟨_, -, he₁⟩ := Option.bind_eq_some_iff.1 he₁
      have hp : Points F s₁ page (level + 1) i (F.entryPhys (s₁.mem page i) (level + 1)) :=
        ⟨hlt, hdown.2.1, by simpa using hdown.2.2, rfl⟩
      have hstart : b * span (level + 1 + 1) + i * span (level + 1) = (b * 512 + i) * span (level + 1) := by
        rw [span_eq, span_eq, Nat.pow_succ]
        ring
      rw [hstart] at he₁
      refine ih hc (hc.typed.child hpage hp) (show n + 1 + level = F.top by omega) (fun va hva => ?_)
        (Nat.le_trans hlo (Nat.le_max_left ..)) (Nat.le_trans (Nat.min_le_left ..) hhi) he₁
      have hw : tableAt F s₁ root va n = some page := by
        rw [tableAt_of_mem hm]
        refine hwalk va ?_
        rw [div_span_succ, hva]
        omega
      have hidx : tableIndex va (level + 1) = i := by
        rw [tableIndex_eq_span, hva]
        omega
      exact tableAt_points hw hn (hidx ▸ hp)

end Marking

/-! ## Unmapping -/

section Unmapping

variable {F : PteFormat} {bound : Nat} {other : List Extent} {kernel : Nat → Prop} {data : List Nat}

/-- Tables of a level below `level` were given back, and no entry got a status. -/
structure Sheds (level : Nat) (K : Nat → Option Kind) (s : Memory) (K' : Nat → Option Kind) (s' : Memory) : Prop where
  sub : ∀ {f : Nat} {k : Kind}, K' f = some k → K f = some k
  keep : ∀ {f : Nat} {k : Kind}, K f = some k → level ≤ k.level → K' f = some k
  mem_eq : ∀ {f : Nat} {k : Kind}, K f = some k → level < k.level → s'.mem f = s.mem f
  stat : ∀ {f j : Nat}, K' f ≠ none → s'.stat f j ≠ .invalid → s.stat f j ≠ .invalid

theorem Sheds.refl (level : Nat) (K : Nat → Option Kind) (s : Memory) : Sheds level K s K s :=
  ⟨fun h => h, fun h _ => h, fun _ _ => rfl, fun _ h => h⟩

theorem Sheds.trans {level : Nat} {K K₁ K₂ : Nat → Option Kind} {s s₁ s₂ : Memory} (h₁ : Sheds level K s K₁ s₁)
    (h₂ : Sheds level K₁ s₁ K₂ s₂) : Sheds level K s K₂ s₂ := by
  refine ⟨fun h => h₁.sub (h₂.sub h), fun h hl => h₂.keep (h₁.keep h hl) hl, fun {f k} h hl => ?_, fun {f j} hne hs => ?_⟩
  · exact (h₂.mem_eq (h₁.keep h (Nat.le_of_lt hl)) hl).trans (h₁.mem_eq h hl)
  · obtain ⟨k, hk⟩ := Option.ne_none_iff_exists'.1 hne
    exact h₁.stat (by rw [h₂.sub hk]; simp) (h₂.stat hne hs)

/-- An empty table is given back with its metadata, and its entry is cleared. -/
theorem Census.unlink (hF : F.Lawful) {s s' : Memory} {K : Nat → Option Kind} {tables : List Nat}
    (h : Census F bound other kernel data s K tables) {page l half i child : Nat} {a : FrameAllocator}
    (hpage : K page = some ⟨l + 1, half⟩) (hi : i < half) (hp : Points F s page (l + 1) i child)
    (hmem : ∀ f j, s'.mem f j = if f = page ∧ j = i then 0 else s.mem f j)
    (hmeta : s'.metadata = Function.update s.metadata (child / pageSize) none)
    (hfree : s.frames.freeFramesAt child 1 = some a) (hfr : s'.frames = a) :
    Census F bound other kernel data s' (Function.update K child none) (tables.erase child) := by
  have hkc : K child = some ⟨l, 512⟩ := by
    rw [h.typed.child hpage hp, Kind.child, if_pos hi]
  have hnk : ¬ kernel child := by
    intro hk
    obtain ⟨l', hk'⟩ := h.shared child hk
    rw [hkc] at hk'
    cases hk'
  have hin : child ∈ tables := (h.mem_iff child).2 ⟨by rw [hkc]; simp, hnk⟩
  have hnd := (List.nodup_append.1 h.pool.nodup).1
  have hperm : (tables ++ data).Perm (child :: (tables.erase child ++ data)) :=
    (List.perm_cons_erase hin).append_right data
  obtain ⟨a', hfree', hpool, -⟩ := freeFrame_pool (h.pool.perm hperm)
  obtain rfl : a = a' := Option.some.inj (hfree.symm.trans hfree')
  refine ⟨h.typed.unlink hF hpage hi hp hmem hmeta, ?_, ?_, ?_, ?_⟩
  · rw [hfr]
    exact hpool
  · intro f
    rw [hnd.mem_erase_iff, h.mem_iff f]
    by_cases hfc : f = child
    · subst hfc
      rw [Function.update_self]
      exact ⟨fun hf => absurd rfl hf.1, fun hf => absurd rfl hf.1⟩
    · rw [Function.update_of_ne hfc]
      exact ⟨fun hf => hf.2, fun hf => ⟨hfc, hf⟩⟩
  · intro f hf
    rw [hfr]
    exact (h.outside f hf).of_ranges (freeFramesAt_ranges hfree)
  · intro f hf
    obtain ⟨l', hk⟩ := h.shared f hf
    refine ⟨l', ?_⟩
    rw [Function.update_of_ne]
    · exact hk
    · rintro rfl
      exact hnk hf

/-- What one iteration of `unmap_in` can do at entry `i`. -/
inductive UnmapStep (F : PteFormat) (recur : (page base start stop : Nat) → Memory × Nat → Option (Memory × Nat))
    (level page base lo hi i : Nat) (s : Memory) (u : Nat) : Memory → Prop
  /-- Nothing is there. -/
  | absent (hpr : F.entryPresent (s.mem page i) = false) : UnmapStep F recur level page base lo hi i s u s
  /-- A larger leaf that the range does not cover stays. -/
  | kept (hpr : F.entryPresent (s.mem page i) = true) (hlf : F.entryIsLeaf (s.mem page i) level = true)
      (hpart : ¬ (lo ≤ base + i * span level ∧ base + i * span level + span level ≤ hi)) :
      UnmapStep F recur level page base lo hi i s u s
  | cleared {s' : Memory} (hpr : F.entryPresent (s.mem page i) = true) (hlf : F.entryIsLeaf (s.mem page i) level = true)
      (hcov : lo ≤ base + i * span level ∧ base + i * span level + span level ≤ hi ∨ level = 0)
      (hset : (s.setEntry page i 0).setStatus page i .invalid = some s') : UnmapStep F recur level page base lo hi i s u s'
  /-- An entry of the lowest level that is no leaf stays. -/
  | stray (hpr : F.entryPresent (s.mem page i) = true) (hlf : F.entryIsLeaf (s.mem page i) level = false)
      (hzero : level = 0) : UnmapStep F recur level page base lo hi i s u s
  | descended {l c u₁ : Nat} {s₁ : Memory} (hlevel : level = l + 1) (hp : Points F s page (l + 1) i c)
      (hrec : recur c (base + i * span level) (max lo (base + i * span level))
        (min hi (base + i * span level + span level)) (s, u) = some (s₁, u₁)) :
      UnmapStep F recur level page base lo hi i s u s₁
  /-- The table below is empty after the call and is given back. -/
  | emptied {l c u₁ : Nat} {s₁ s' : Memory} (hlevel : level = l + 1) (hp : Points F s page (l + 1) i c)
      (hrec : recur c (base + i * span level) (max lo (base + i * span level))
        (min hi (base + i * span level + span level)) (s, u) = some (s₁, u₁))
      (hempty : ∀ j < ptEntries, s₁.mem c j = 0)
      (hmem : ∀ f j, s'.mem f j = if f = page ∧ j = i then 0 else s₁.mem f j)
      (hmeta : s'.metadata = Function.update s₁.metadata (c / pageSize) none)
      (hfree : s₁.frames.freeFramesAt c 1 = some s'.frames) : UnmapStep F recur level page base lo hi i s u s'

theorem unmapEntry_cases {recur : (page base start stop : Nat) → Memory × Nat → Option (Memory × Nat)}
    {level page base lo hi i : Nat} {s : Memory} {u : Nat} {x : Memory × Nat} (hi₂ : i < 512)
    (he : Memory.unmapEntry F recur level page base lo hi (s, u) i = some x) :
    UnmapStep F recur level page base lo hi i s u x.1 := by
  unfold Memory.unmapEntry at he
  dsimp only at he
  split at he
  · rename_i hpr
    cases he
    exact .absent (by simpa using hpr)
  rename_i hpr
  have hpr' : F.entryPresent (s.mem page i) = true := by simpa using hpr
  split at he
  · rename_i hlf
    split at he
    · rename_i hcov
      simp only [Option.bind_eq_bind] at he
      obtain ⟨s₁, hset, he⟩ := Option.bind_eq_some_iff.1 he
      cases he
      exact .cleared hpr' hlf (by simpa using hcov) hset
    · rename_i hcov
      cases he
      exact .kept hpr' hlf fun hc => hcov (by simp [hc])
  rename_i hlf
  have hlf' : F.entryIsLeaf (s.mem page i) level = false := by simpa using hlf
  split at he
  swap
  · rename_i hlevel
    cases he
    exact .stray hpr' hlf' (by omega)
  rename_i hlevel
  obtain ⟨l, rfl⟩ : ∃ l, level = l + 1 := ⟨level - 1, by omega⟩
  have hp : Points F s page (l + 1) i (F.entryPhys (s.mem page i) (l + 1)) := ⟨hi₂, hpr', hlf', rfl⟩
  simp only [Option.bind_eq_bind] at he
  obtain ⟨_, -, he⟩ := Option.bind_eq_some_iff.1 he
  obtain ⟨⟨s₁, u₁⟩, hrec, he⟩ := Option.bind_eq_some_iff.1 he
  dsimp only at he
  split at he
  · rename_i hall
    obtain ⟨s₂, hdrop, he⟩ := Option.bind_eq_some_iff.1 he
    obtain ⟨a, hfree, he⟩ := Option.bind_eq_some_iff.1 he
    cases he
    obtain ⟨hmem₂, hfr₂⟩ := dropMetadata_some hdrop
    rw [hfr₂] at hfree
    have hmeta := dropMetadata_metadata hdrop
    refine .emptied rfl hp hrec (fun j hj => ?_) (fun f j => ?_) hmeta hfree
    · simpa using List.all_eq_true.1 hall j (List.mem_range.2 hj)
    · rw [mem_setEntry, hmem₂]
  · cases he
    exact .descended rfl hp hrec

/-- What a call of `unmap_in` one level below `level` leaves behind. -/
def ShedsBelow (F : PteFormat) (bound : Nat) (other : List Extent) (kernel : Nat → Prop) (data : List Nat) (level : Nat)
    (recur : (page base start stop : Nat) → Memory × Nat → Option (Memory × Nat)) : Prop :=
  ∀ {l : Nat}, level = l + 1 → ∀ {child base lo hi : Nat} {s₁ : Memory} {K₁ : Nat → Option Kind} {tables₁ : List Nat} {u : Nat}
    {x : Memory × Nat}, Census F bound other kernel data s₁ K₁ tables₁ → K₁ child = some ⟨l, 512⟩ →
    recur child base lo hi (s₁, u) = some x →
    ∃ K₂ tables₂, Census F bound other kernel data x.1 K₂ tables₂ ∧ Sheds l K₁ s₁ K₂ x.1

/-- What one iteration of `unmap_in` leaves behind; `recur` is the call one level down. -/
theorem unmapEntry_sheds (hF : F.Lawful) {recur : (page base start stop : Nat) → Memory × Nat → Option (Memory × Nat)}
    {level : Nat} (hrecur : ShedsBelow F bound other kernel data level recur)
    {page half base lo hi i : Nat} {s : Memory} {K : Nat → Option Kind} {tables : List Nat} {u : Nat} {x : Memory × Nat}
    (h : Census F bound other kernel data s K tables) (hpage : K page = some ⟨level, half⟩) (hi₁ : i < half) (hi₂ : i < 512)
    (he : Memory.unmapEntry F recur level page base lo hi (s, u) i = some x) :
    ∃ K' tables', Census F bound other kernel data x.1 K' tables' ∧ Sheds level K s K' x.1 := by
  -- a call one level down touches tables of lower levels only
  have hdown : ∀ {l c base' lo' hi' u₁ : Nat} {s₁ : Memory}, level = l + 1 → Points F s page (l + 1) i c →
      recur c base' lo' hi' (s, u) = some (s₁, u₁) →
      ∃ K₁ tables₁, Census F bound other kernel data s₁ K₁ tables₁ ∧ Sheds level K s K₁ s₁ ∧
        K₁ page = some ⟨l + 1, half⟩ ∧ Points F s₁ page (l + 1) i c := by
    intro l c base' lo' hi' u₁ s₁ hl hp hrec
    subst hl
    have hkc : K c = some ⟨l, 512⟩ := by rw [h.typed.child hpage hp, Kind.child, if_pos hi₁]
    obtain ⟨K₁, tables₁, h₁, hsh⟩ := hrecur rfl h hkc hrec
    have hmem₁ : s₁.mem page = s.mem page := hsh.mem_eq hpage (Nat.lt_succ_self l)
    refine ⟨K₁, tables₁, h₁, ⟨hsh.sub, fun hk hl => hsh.keep hk (by omega), fun hk hl => hsh.mem_eq hk (by omega),
      hsh.stat⟩, hsh.keep hpage (Nat.le_succ l), hi₂, ?_, ?_, ?_⟩
    · rw [hmem₁]
      exact hp.present
    · rw [hmem₁]
      exact hp.not_leaf
    · rw [hmem₁]
      exact hp.phys
  have hstep := unmapEntry_cases hi₂ he
  obtain ⟨s', u'⟩ := x
  cases hstep with
  | absent hpr => exact ⟨K, tables, h, Sheds.refl ..⟩
  | kept hpr hlf hpart => exact ⟨K, tables, h, Sheds.refl ..⟩
  | stray hpr hlf hzero => exact ⟨K, tables, h, Sheds.refl ..⟩
  | cleared hpr hlf hcov hset =>
    obtain ⟨hmem, hfr⟩ := setStatus_some hset
    obtain ⟨-, hstat, -⟩ := setStatus_stat hset
    have hzero : F.entryPresent 0 = true → F.entryIsLeaf 0 level = true := by
      intro hp
      rw [hF.present_zero] at hp
      cases hp
    refine ⟨K, tables, ⟨h.typed.setLeaf hpage hzero (by simp) hset, ?_, h.mem_iff, ?_, h.shared⟩, fun hk => hk,
      fun hk _ => hk, fun {f k} hk hl => ?_, fun {f j} hne hs => ?_⟩
    · rw [hfr]
      exact h.pool
    · rw [hfr]
      exact h.outside
    · rw [hmem]
      refine Function.update_of_ne ?_ ..
      rintro rfl
      rw [hpage] at hk
      cases hk
      exact Nat.lt_irrefl _ hl
    · obtain ⟨k, hk⟩ := Option.ne_none_iff_exists'.1 hne
      rw [hstat f j (h.typed.aligned hk)] at hs
      split at hs
      · exact absurd rfl hs
      · exact hs
  | descended hlevel hp hrec =>
    obtain ⟨K₁, tables₁, h₁, hup, -⟩ := hdown hlevel hp hrec
    exact ⟨K₁, tables₁, h₁, hup⟩
  | @emptied l child u₁ s₁ _ hlevel hp hrec hempty hmem hmeta hfree =>
    obtain ⟨K₁, tables₁, h₁, hup, hpage₁, hp₁⟩ := hdown hlevel hp hrec
    subst hlevel
    have hkc₁ : K₁ child = some ⟨l, 512⟩ := by
      rw [h₁.typed.child hpage₁ hp₁, Kind.child, if_pos hi₁]
    refine ⟨_, _, h₁.unlink hF hpage₁ hi₁ hp₁ hmem hmeta hfree rfl, hup.trans ⟨fun {f k} hk => ?_, fun {f k} hk hl => ?_,
      fun {f k} hk hl => ?_, fun {f j} hne hs => ?_⟩⟩
    · by_cases hfc : f = child
      · rw [hfc, Function.update_self] at hk
        cases hk
      · rwa [Function.update_of_ne hfc] at hk
    · rw [Function.update_of_ne]
      · exact hk
      · rintro rfl
        rw [hkc₁] at hk
        cases hk
        exact absurd hl (Nat.not_succ_le_self l)
    · funext j
      rw [hmem, if_neg]
      rintro ⟨rfl, -⟩
      rw [hpage₁] at hk
      cases hk
      exact Nat.lt_irrefl _ hl
    · have hfc : f ≠ child := by
        rintro rfl
        rw [Function.update_self] at hne
        exact hne rfl
      rw [Function.update_of_ne hfc] at hne
      obtain ⟨k, hk⟩ := Option.ne_none_iff_exists'.1 hne
      rwa [stat_drop s₁ (h₁.typed.aligned hkc₁) (h₁.typed.aligned hk) j hfc hmeta] at hs

/-- `unmap_in` at a table whose visited entries lead to tables of its own. -/
theorem unmapIn_sheds (hF : F.Lawful) : ∀ (level : Nat) {page half base lo hi : Nat} {s : Memory}
    {K : Nat → Option Kind} {tables : List Nat} {u : Nat} {x : Memory × Nat}, Census F bound other kernel data s K tables →
    K page = some ⟨level, half⟩ → tableIndex (hi - 1) level < half →
    Memory.unmapIn F level page base lo hi (s, u) = some x →
    ∃ K' tables', Census F bound other kernel data x.1 K' tables' ∧ Sheds level K s K' x.1 := by
  -- the loop over the entries
  have hloop : ∀ {level page half base lo hi : Nat}
      {recur : (page base start stop : Nat) → Memory × Nat → Option (Memory × Nat)},
      ShedsBelow F bound other kernel data level recur →
      ∀ (is : List Nat) {s : Memory} {K : Nat → Option Kind} {tables : List Nat} {u : Nat} {x : Memory × Nat},
      (∀ i ∈ is, i < half ∧ i < 512) → Census F bound other kernel data s K tables → K page = some ⟨level, half⟩ →
      is.foldlM (Memory.unmapEntry F recur level page base lo hi) (s, u) = some x →
      ∃ K' tables', Census F bound other kernel data x.1 K' tables' ∧ Sheds level K s K' x.1 := by
    intro level page half base lo hi recur hrecur is
    induction is with
    | nil =>
      intro s K tables u x _ h _ he
      cases he
      exact ⟨K, tables, h, Sheds.refl ..⟩
    | cons i is ih =>
      intro s K tables u x his h hpage he
      rw [List.foldlM_cons] at he
      obtain ⟨⟨s₁, u₁⟩, he₁, he⟩ := Option.bind_eq_some_iff.1 he
      obtain ⟨hi₁, hi₂⟩ := his i (List.mem_cons_self ..)
      obtain ⟨K₁, tables₁, h₁, hsh₁⟩ := unmapEntry_sheds hF hrecur h hpage hi₁ hi₂ he₁
      obtain ⟨K₂, tables₂, h₂, hsh₂⟩ := ih (fun j hj => his j (List.mem_cons_of_mem _ hj)) h₁
        (hsh₁.keep hpage (Nat.le_refl _)) he
      exact ⟨K₂, tables₂, h₂, hsh₁.trans hsh₂⟩
  have hrange : ∀ {half lo hi level : Nat}, tableIndex (hi - 1) level < half →
      ∀ i ∈ List.range' (tableIndex lo level) (tableIndex (hi - 1) level + 1 - tableIndex lo level), i < half ∧ i < 512 := by
    intro half lo hi level hlast i hi'
    have h₁ := tableIndex_lt (hi - 1) level
    have h₂ := List.mem_range'_1.1 hi'
    omega
  intro level
  induction level with
  | zero =>
    intro page half base lo hi s K tables u x h hpage hlast he
    rw [Memory.unmapIn] at he
    exact hloop (fun {l} hl => absurd hl (Nat.succ_ne_zero l).symm) _ (hrange hlast) h hpage he
  | succ level ih =>
    intro page half base lo hi s K tables u x h hpage hlast he
    rw [Memory.unmapIn] at he
    refine hloop (fun {l} hl => ?_) _ (hrange hlast) h hpage he
    obtain rfl : level = l := by omega
    intro child base' lo' hi' s₁ K₁ tables₁ u₁ x₁ h₁ hk he₁
    exact ih h₁ hk (tableIndex_lt _ _) he₁

end Unmapping

end Koros.Mmu
