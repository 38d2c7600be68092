import Koros.Mmu.Census

/-!
# What an address space translates

`walk` is the way of the hardware through the tables: the level and the page of the entry that decides an address. In a
tree of tables a page is reached by the addresses of one region only (`Typed.tableAt_unique`), so a change of one entry
changes the view of the addresses behind it and of no other (`Slot.change_out`), and `translate` reads the view
(`translate_eq_view`).

- `unmapIn_view`: `unmap_in` takes away every page whose whole leaf lies in the range, and nothing else.
-/
set_option autoImplicit false

namespace Koros.Mmu

open Koros.Frame

/-! ## Walks -/

/-- Where the walk for `va` ends, from a table page on: the level and the page of the deciding entry. -/
def walk (F : PteFormat) (s : Memory) (va : Nat) : (level page : Nat) → Nat × Nat
  | 0, page => (0, page)
  | level + 1, page =>
    let entry := s.mem page (tableIndex va (level + 1))
    if F.entryPresent entry && !F.entryIsLeaf entry (level + 1) then walk F s va level (F.entryPhys entry (level + 1))
    else (level + 1, page)

/-- What the entry `entry` of level `level` makes of `va`. -/
def seen (F : PteFormat) (va level entry : Nat) : Option Nat :=
  if F.entryPresent entry then some (F.entryPhys entry level + va % span level) else none

/-- The deciding entry. -/
def wordAt (F : PteFormat) (s : Memory) (va level page : Nat) : Nat :=
  s.mem (walk F s va level page).2 (tableIndex va (walk F s va level page).1)

/-- What a table page makes of `va`. -/
def viewAt (F : PteFormat) (s : Memory) (va level page : Nat) : Option Nat :=
  seen F va (walk F s va level page).1 (wordAt F s va level page)

/-- What an address space makes of `va`. -/
def view (F : PteFormat) (s : Memory) (root va : Nat) : Option Nat := viewAt F s va F.top root

section Walk

variable {F : PteFormat} {s s' : Memory} {K : Nat → Option Kind} {root half va : Nat}

theorem walk_level_le : ∀ (level page : Nat), (walk F s va level page).1 ≤ level
  | 0, _ => Nat.le_refl 0
  | level + 1, page => by
    simp only [walk]
    split
    · exact Nat.le_succ_of_le (walk_level_le level _)
    · exact Nat.le_refl _

theorem walk_of_points {page l c : Nat} (hp : Points F s page (l + 1) (tableIndex va (l + 1)) c) :
    walk F s va (l + 1) page = walk F s va l c := by
  simp [walk, hp.present, hp.not_leaf, hp.phys]

theorem wordAt_of_points {page l c : Nat} (hp : Points F s page (l + 1) (tableIndex va (l + 1)) c) :
    wordAt F s va (l + 1) page = wordAt F s va l c := by
  rw [wordAt, walk_of_points hp, wordAt]

theorem viewAt_of_points {page l c : Nat} (hp : Points F s page (l + 1) (tableIndex va (l + 1)) c) :
    viewAt F s va (l + 1) page = viewAt F s va l c := by
  rw [viewAt, walk_of_points hp, wordAt_of_points hp, viewAt]

/-- A walk either goes on behind a pointer or ends. -/
theorem points_or_ends (F : PteFormat) (s : Memory) (va page l : Nat) :
    (∃ c, Points F s page (l + 1) (tableIndex va (l + 1)) c) ∨ walk F s va (l + 1) page = (l + 1, page) := by
  simp only [walk]
  split
  · rename_i hc
    obtain ⟨hpr, hnl⟩ := Bool.and_eq_true_iff.1 hc
    exact Or.inl ⟨_, tableIndex_lt va _, hpr, by simpa using hnl, rfl⟩
  · exact Or.inr rfl

/-- A walk that meets an entry which is no pointer ends there. -/
theorem walk_of_not_points {level page : Nat}
    (h : F.entryPresent (s.mem page (tableIndex va level)) = false ∨ F.entryIsLeaf (s.mem page (tableIndex va level)) level = true) :
    walk F s va level page = (level, page) := by
  cases level with
  | zero => rfl
  | succ level =>
    simp only [walk]
    rw [if_neg]
    rcases h with h | h <;> simp [h]

theorem wordAt_of_ends {page l : Nat} (hw : walk F s va l page = (l, page)) :
    wordAt F s va l page = s.mem page (tableIndex va l) := by
  rw [wordAt, hw]

theorem viewAt_of_ends {page l : Nat} (hw : walk F s va l page = (l, page)) :
    viewAt F s va l page = seen F va l (s.mem page (tableIndex va l)) := by
  rw [viewAt, wordAt_of_ends hw, hw]

/-- An empty entry gives nothing. -/
theorem viewAt_zero (hF : F.Lawful) {page l : Nat} (hzero : s.mem page (tableIndex va l) = 0) :
    viewAt F s va l page = none := by
  rw [viewAt_of_ends (walk_of_not_points (Or.inl (by rw [hzero]; exact hF.present_zero))), hzero, seen, hF.present_zero]
  rfl

/-- The rest of a walk. -/
theorem walk_of_tableAt : ∀ {n page : Nat}, n ≤ F.top → tableAt F s root va n = some page →
    walk F s va F.top root = walk F s va (F.top - n) page
  | 0, page, _, h => by
    cases h
    rfl
  | n + 1, page, hn, h => by
    obtain ⟨parent, hparent, hp⟩ := points_of_tableAt h
    rw [walk_of_tableAt (Nat.le_of_succ_le hn) hparent]
    have hl : F.top - n = F.top - (n + 1) + 1 := by omega
    rw [hl] at hp ⊢
    exact walk_of_points hp

theorem wordAt_of_tableAt {n page : Nat} (hn : n ≤ F.top) (h : tableAt F s root va n = some page) :
    wordAt F s va F.top root = wordAt F s va (F.top - n) page := by
  rw [wordAt, walk_of_tableAt hn h, wordAt]

theorem view_of_tableAt {n page : Nat} (hn : n ≤ F.top) (h : tableAt F s root va n = some page) :
    view F s root va = viewAt F s va (F.top - n) page := by
  rw [view, viewAt, walk_of_tableAt hn h, wordAt_of_tableAt hn h, viewAt]

/-- The same deciding entry gives the same view. -/
theorem view_congr (hwalk : walk F s' va F.top root = walk F s va F.top root)
    (hword : wordAt F s' va F.top root = wordAt F s va F.top root) : view F s' root va = view F s root va := by
  rw [view, view, viewAt, viewAt, hwalk, hword]

/-- Addresses of one region take the same way. -/
theorem tableAt_same {a b : Nat} : ∀ {n : Nat}, n ≤ F.top →
    a / span (F.top - n + 1) = b / span (F.top - n + 1) → tableAt F s root a n = tableAt F s root b n
  | 0, _, _ => rfl
  | n + 1, hn, h => by
    have hl : F.top - n = F.top - (n + 1) + 1 := by omega
    have hup : a / span (F.top - n + 1) = b / span (F.top - n + 1) := by
      rw [div_span_succ, div_span_succ b, hl, h]
    have hidx : tableIndex a (F.top - n) = tableIndex b (F.top - n) := by
      rw [tableIndex_eq_span, tableIndex_eq_span, hl, h]
    rw [tableAt, tableAt, tableAt_same (Nat.le_of_succ_le hn) hup, hidx]

/-- A table on a walk that starts at a root of its own is the root's own. -/
theorem Typed.tableAt_own (h : Typed F s K) (hroot : K root = some ⟨F.top, 512⟩) : ∀ {n page : Nat}, n ≤ F.top →
    tableAt F s root va n = some page → K page = some ⟨F.top - n, 512⟩
  | 0, page, _, he => by
    cases he
    exact hroot
  | n + 1, page, hn, he => by
    obtain ⟨parent, hparent, hp⟩ := points_of_tableAt he
    have hk := h.tableAt_own hroot (Nat.le_of_succ_le hn) hparent
    have hl : F.top - n = F.top - (n + 1) + 1 := by omega
    rw [hl] at hk hp
    rw [h.child hk hp, Kind.child, if_pos hp.lt]

/-- A table is on the walks of one region only. -/
theorem Typed.tableAt_unique (h : Typed F s K) (hroot : K root = some ⟨F.top, 512⟩) {a b : Nat}
    (ha : a < span (F.top + 1)) (hb : b < span (F.top + 1)) : ∀ {n page : Nat}, n ≤ F.top →
    tableAt F s root a n = some page → tableAt F s root b n = some page →
    a / span (F.top - n + 1) = b / span (F.top - n + 1)
  | 0, page, _, _, _ => by
    rw [Nat.sub_zero, Nat.div_eq_of_lt ha, Nat.div_eq_of_lt hb]
  | n + 1, page, hn, hta, htb => by
    obtain ⟨p, hpa, hp⟩ := points_of_tableAt hta
    obtain ⟨q, hqb, hq⟩ := points_of_tableAt htb
    have hkp := h.tableAt_own hroot (Nat.le_of_succ_le hn) hpa
    have hkq := h.tableAt_own hroot (Nat.le_of_succ_le hn) hqb
    have hl : F.top - n = F.top - (n + 1) + 1 := by omega
    rw [hl] at hkp hkq hp hq
    obtain ⟨rfl, hidx⟩ := h.inj hkp hkq hp.lt hq.lt hp hq
    have hup := h.tableAt_unique hroot ha hb (Nat.le_of_succ_le hn) hpa hqb
    rw [div_span_succ, div_span_succ b, hl] at hup
    rw [tableIndex_eq_span, tableIndex_eq_span] at hidx
    omega

/-! ## The change of one entry -/

/-- A change of the entry `i` of `page` is not seen by a walk that does not read it. -/
theorem Typed.walk_congr (h : Typed F s K) (hroot : K root = some ⟨F.top, 512⟩) {page l half' i a : Nat}
    (hpage : K page = some ⟨l, half'⟩)
    (hmem : ∀ f j, K f ≠ none → ¬ (f = page ∧ j = i) → s'.mem f j = s.mem f j) : ∀ (level : Nat) {p : Nat},
    level ≤ F.top → tableAt F s root a (F.top - level) = some p →
    (tableAt F s root a (F.top - l) = some page ∧ tableIndex a l = i) ∨
      walk F s' a level p = walk F s a level p ∧ wordAt F s' a level p = wordAt F s a level p := by
  -- the entry that is read is either the changed one or the same
  have hread : ∀ {level p : Nat}, level ≤ F.top → tableAt F s root a (F.top - level) = some p →
      (tableAt F s root a (F.top - l) = some page ∧ tableIndex a l = i) ∨
        s'.mem p (tableIndex a level) = s.mem p (tableIndex a level) := by
    intro level p hle hp
    have hk := h.tableAt_own hroot (Nat.sub_le _ _) hp
    by_cases hpi : p = page ∧ tableIndex a level = i
    · left
      obtain ⟨rfl, rfl⟩ := hpi
      rw [hpage] at hk
      have hl : l = F.top - (F.top - level) := congrArg Kind.level (Option.some.inj hk)
      obtain rfl : l = level := by omega
      exact ⟨hp, rfl⟩
    · exact Or.inr (hmem p _ (by rw [hk]; simp) hpi)
  intro level
  induction level with
  | zero =>
    intro p hle hp
    exact (hread hle hp).imp_right fun he => ⟨rfl, he⟩
  | succ level ih =>
    intro p hle hp
    rcases hread hle hp with hhit | he
    · exact Or.inl hhit
    rcases points_or_ends F s a p level with ⟨c, hpt⟩ | hend
    · have hpt' : Points F s' p (level + 1) (tableIndex a (level + 1)) c :=
        ⟨hpt.lt, by rw [he]; exact hpt.present, by rw [he]; exact hpt.not_leaf, by rw [he]; exact hpt.phys⟩
      have hc : tableAt F s root a (F.top - level) = some c := by
        have hn : F.top - level = F.top - (level + 1) + 1 := by omega
        rw [hn]
        exact tableAt_points hp (by omega) hpt
      rw [walk_of_points hpt, walk_of_points hpt', wordAt_of_points hpt, wordAt_of_points hpt']
      exact ih (Nat.le_of_succ_le hle) hc
    · right
      have hend' : walk F s' a (level + 1) p = (level + 1, p) := by
        rw [← hend]
        simp only [walk, he]
        split
        · rename_i hc
          simp only [walk, if_pos hc] at hend
          have hle : (walk F s a level (F.entryPhys (s.mem p (tableIndex a (level + 1))) (level + 1))).1 ≤ level :=
            walk_level_le _ _
          rw [hend] at hle
          exact absurd hle (Nat.not_succ_le_self level)
        · rfl
      exact ⟨hend'.trans hend.symm, by rw [wordAt_of_ends hend, wordAt_of_ends hend', he]⟩

/-- The table page that a root of its own has for the region of `va` at `level`. -/
structure Slot (F : PteFormat) (s : Memory) (K : Nat → Option Kind) (root level page va : Nat) : Prop where
  typed : Typed F s K
  root_own : K root = some ⟨F.top, 512⟩
  level_le : level ≤ F.top
  lt : va < span (F.top + 1)
  reached : tableAt F s root va (F.top - level) = some page

namespace Slot

variable {level page a : Nat}

theorem kind (h : Slot F s K root level page va) : K page = some ⟨level, 512⟩ := by
  have hk := h.typed.tableAt_own h.root_own (Nat.sub_le _ _) h.reached
  rwa [Nat.sub_sub_self h.level_le] at hk

/-- Addresses of the same entry have the slot. -/
theorem congr (h : Slot F s K root level page va) (ha : a < span (F.top + 1)) (hsame : a / span level = va / span level) :
    Slot F s K root level page a := by
  refine { h with lt := ha, reached := ?_ }
  rw [← h.reached]
  refine tableAt_same (Nat.sub_le _ _) ?_
  rw [Nat.sub_sub_self h.level_le, div_span_succ, div_span_succ va, hsame]

theorem walk_eq (h : Slot F s K root level page va) :
    walk F s va F.top root = walk F s va level page := by
  rw [walk_of_tableAt (Nat.sub_le _ _) h.reached, Nat.sub_sub_self h.level_le]

theorem view_eq (h : Slot F s K root level page va) : view F s root va = viewAt F s va level page := by
  rw [view_of_tableAt (Nat.sub_le _ _) h.reached, Nat.sub_sub_self h.level_le]

/-- **One entry**: when only the entry of the slot changes, its addresses still come to the page. -/
theorem change (h : Slot F s K root level page va)
    (hmem : ∀ f j, K f ≠ none → ¬ (f = page ∧ j = tableIndex va level) → s'.mem f j = s.mem f j) :
    tableAt F s' root va (F.top - level) = some page := by
  rw [h.typed.tableAt_eq h.root_own (Nat.sub_add_cancel h.level_le) h.kind fun f hf hfp => ?_]
  · exact h.reached
  · funext j
    exact hmem f j hf fun hfj => hfp hfj.1

/-- Addresses of other entries see what they saw. -/
theorem change_out (h : Slot F s K root level page va)
    (hmem : ∀ f j, K f ≠ none → ¬ (f = page ∧ j = tableIndex va level) → s'.mem f j = s.mem f j)
    (ha : a < span (F.top + 1)) (hne : a / span level ≠ va / span level) :
    walk F s' a F.top root = walk F s a F.top root ∧ wordAt F s' a F.top root = wordAt F s a F.top root := by
  refine (h.typed.walk_congr h.root_own h.kind hmem F.top (Nat.le_refl _) ?_).resolve_left ?_
  · rw [Nat.sub_self]
    rfl
  · rintro ⟨hhit, hidx⟩
    have hup := h.typed.tableAt_unique h.root_own ha h.lt (Nat.sub_le _ _) hhit h.reached
    rw [Nat.sub_sub_self h.level_le, div_span_succ, div_span_succ va] at hup
    rw [tableIndex_eq_span, tableIndex_eq_span] at hidx
    omega

/-- The walk ends at an entry that is no pointer. -/
theorem ends (h : Slot F s K root level page va)
    (hno : F.entryPresent (s.mem page (tableIndex va level)) = false ∨
      F.entryIsLeaf (s.mem page (tableIndex va level)) level = true) :
    walk F s va F.top root = (level, page) ∧ view F s root va = seen F va level (s.mem page (tableIndex va level)) := by
  have hend : walk F s va level page = (level, page) := walk_of_not_points hno
  exact ⟨h.walk_eq.trans hend, h.view_eq.trans (viewAt_of_ends hend)⟩

end Slot

end Walk

/-! ## `translate` -/

/-- The address that a status gives. -/
def PageStatus.target (va : Nat) : PageStatus → Option Nat
  | .mapped phys _ granularity => some (phys + va % granularity)
  | _ => none

section Translate

variable {F : PteFormat} {s : Memory} {K : Nat → Option Kind} {root half va : Nat}

theorem lockRange_placed (h : Typed F s K) (hplaced : ∀ f, K f ≠ none → TableOk f) (stop : Nat) :
    ∀ (level : Nat) {page half' : Nat}, K page = some ⟨level, half'⟩ → s.lockRange F va stop level page = some ()
  | 0, page, half', hk => (hplaced page (by rw [hk]; simp)).lockPage
  | level + 1, page, half', hk => by
    simp only [Memory.lockRange, (hplaced page (by rw [hk]; simp)).lockPage, Option.bind_eq_bind, Option.bind_some]
    split
    · rfl
    · rename_i hc
      simp only [Bool.or_eq_true, not_or, Bool.not_eq_true] at hc
      exact lockRange_placed h hplaced stop level
        (h.child hk ⟨tableIndex_lt va _, by simpa using hc.1.1, by simpa using hc.1.2, rfl⟩)

/-- A query gives what the walk sees: an entry that is not present has no status `Mapped` above it. -/
theorem queryAt_view (h : Typed F s K) (hplaced : ∀ f, K f ≠ none → TableOk f) : ∀ (level : Nat) {page half' : Nat}
    {inherited : PageStatus}, K page = some ⟨level, half'⟩ → inherited.target va = none →
    (s.queryAt F va level page inherited).map (PageStatus.target va) = some (viewAt F s va level page) := by
  have hinherit : ∀ {level page half' : Nat} {inherited : PageStatus}, K page = some ⟨level, half'⟩ →
      inherited.target va = none → (F.entryPresent (s.mem page (tableIndex va level)) = false ∨
        F.entryIsLeaf (s.mem page (tableIndex va level)) level = false) →
      (if s.stat page (tableIndex va level) = .invalid then inherited
        else s.stat page (tableIndex va level)).target va = none := by
    intro level page half' inherited hk hinh hno
    split
    · exact hinh
    · cases hst : s.stat page (tableIndex va level) with
      | invalid => rfl
      | allocated flags => rfl
      | mapped phys flags g =>
        obtain ⟨hpr, hlf⟩ := h.mapped hk (tableIndex_lt va _) hst
        rcases hno with hno | hno
        · rw [hpr] at hno
          cases hno
        · rw [hlf] at hno
          cases hno
  intro level
  induction level with
  | zero =>
    intro page half' inherited hk hinh
    have hok := hplaced page (by rw [hk]; simp)
    rw [viewAt_of_ends (l := 0) rfl]
    simp only [Memory.queryAt, s.status_eq hok, Option.bind_eq_bind, Option.bind_some, seen]
    cases hpr : F.entryPresent (s.mem page (tableIndex va 0)) with
    | false => simpa using hinherit hk hinh (Or.inl hpr)
    | true => rfl
  | succ level ih =>
    intro page half' inherited hk hinh
    have hok := hplaced page (by rw [hk]; simp)
    unfold Memory.queryAt
    simp only [s.status_eq hok, Option.bind_eq_bind, Option.bind_some]
    rcases points_or_ends F s va page level with ⟨c, hp⟩ | hend
    · rw [viewAt_of_points hp]
      simp only [hp.present, hp.not_leaf, hp.phys, Bool.not_true, Bool.false_eq_true, if_false]
      exact ih (h.child hk hp) (hinherit hk hinh (Or.inr hp.not_leaf))
    · rw [viewAt_of_ends hend, seen]
      cases hpr : F.entryPresent (s.mem page (tableIndex va (level + 1))) with
      | false => simpa using hinherit hk hinh (Or.inl hpr)
      | true =>
        have hlf : F.entryIsLeaf (s.mem page (tableIndex va (level + 1))) (level + 1) = true := by
          by_contra hno
          have hp : Points F s page (level + 1) (tableIndex va (level + 1)) _ :=
            ⟨tableIndex_lt va _, hpr, by simpa using hno, rfl⟩
          have hle : (walk F s va level (F.entryPhys (s.mem page (tableIndex va (level + 1))) (level + 1))).1 ≤ level :=
            walk_level_le _ _
          rw [← walk_of_points hp, hend] at hle
          exact absurd hle (Nat.not_succ_le_self level)
        simp [hlf, PageStatus.target]

/-- **`translate` reads the view.** -/
theorem translate_eq_view (h : Typed F s K) (hroot : K root = some ⟨F.top, half⟩)
    (hplaced : ∀ f, K f ≠ none → TableOk f) (va : Nat) :
    AddrSpace.translate F s root va = some (view F s root va) := by
  have hq : (s.queryAt F va F.top root .invalid).map (PageStatus.target va) = some (viewAt F s va F.top root) :=
    queryAt_view h hplaced F.top hroot rfl
  obtain ⟨st, hst, hview⟩ := Option.map_eq_some_iff.1 hq
  have hlock : AddrSpace.lock F s root va (va + pageSize) = some () := lockRange_placed h hplaced _ _ hroot
  unfold AddrSpace.translate
  rw [hlock]
  simp only [Memory.query, show F.levels - 1 = F.top from rfl, hst, Option.bind_eq_bind, Option.bind_some]
  rw [view, ← hview]
  cases st <;> rfl

end Translate

/-! ## Unmapping -/

/-- The region of `a` at level `l` lies in the range. -/
def Whole (lo hi l a : Nat) : Prop := lo ≤ a / span l * span l ∧ a / span l * span l + span l ≤ hi

theorem lt_div_mul_add (a l : Nat) : a < a / span l * span l + span l := Nat.lt_div_mul_add (span_pos l)

theorem Whole.le {lo hi l a : Nat} (h : Whole lo hi l a) : lo ≤ a ∧ a < hi :=
  ⟨Nat.le_trans h.1 (Nat.div_mul_le_self a _), Nat.lt_of_lt_of_le (lt_div_mul_add a l) h.2⟩

theorem span_mul_div {l k : Nat} (hl : l ≤ k) : ∃ m, span k = span l * m := by
  refine ⟨512 ^ (k - l), ?_⟩
  rw [span_eq, span_eq, Nat.mul_assoc, ← Nat.pow_add, Nat.add_sub_cancel' hl]

/-- The region of an address at a level lies in its region at a higher level. -/
theorem region_within {l k a : Nat} (hl : l ≤ k) : a / span k * span k ≤ a / span l * span l ∧
    a / span l * span l + span l ≤ a / span k * span k + span k := by
  obtain ⟨m, hm⟩ := span_mul_div hl
  have hpos := span_pos l
  have hlt := lt_div_mul_add a k
  have hle := Nat.div_mul_le_self a (span k)
  have hq : a / span k * span k = (a / span k * m) * span l := by rw [hm]; ring
  have hr : a / span k * span k + span k = (a / span k * m + m) * span l := by
    rw [Nat.add_mul, ← hq, hm, Nat.mul_comm m]
  have h₁ : a / span k * m ≤ a / span l := (Nat.le_div_iff_mul_le hpos).2 (by rw [← hq]; exact hle)
  have h₂ : a / span l < a / span k * m + m := (Nat.div_lt_iff_lt_mul hpos).2 (by rw [← hr]; exact hlt)
  constructor
  · rw [hq]
    exact Nat.mul_le_mul_right _ h₁
  · rw [hr, ← Nat.succ_mul]
    exact Nat.mul_le_mul_right _ h₂

/-- Cutting a range to a region does not matter for what lies in the region. -/
theorem whole_cut {lo hi l k a : Nat} (hl : l ≤ k) :
    Whole (max lo (a / span k * span k)) (min hi (a / span k * span k + span k)) l a ↔ Whole lo hi l a := by
  have h := region_within (a := a) hl
  unfold Whole
  omega

/-- The leaves that the range covers are gone among the touched addresses, and nothing else changed. -/
structure Cleared (F : PteFormat) (root lo hi : Nat) (touched : Nat → Prop) (s s' : Memory) : Prop where
  gone : ∀ a < span (F.top + 1), touched a → Whole lo hi (walk F s a F.top root).1 a → view F s' root a = none
  kept : ∀ a < span (F.top + 1), touched a → ¬ Whole lo hi (walk F s a F.top root).1 a →
    view F s' root a = view F s root a
  out : ∀ a < span (F.top + 1), ¬ touched a →
    walk F s' a F.top root = walk F s a F.top root ∧ view F s' root a = view F s root a

section Unmapping

variable {F : PteFormat} {bound : Nat} {other : List Extent} {kernel : Nat → Prop} {data : List Nat} {root lo hi : Nat}

theorem Cleared.refl {touched : Nat → Prop} {s : Memory}
    (h : ∀ a < span (F.top + 1), touched a → Whole lo hi (walk F s a F.top root).1 a → view F s root a = none) :
    Cleared F root lo hi touched s s :=
  ⟨h, fun _ _ _ _ => rfl, fun _ _ _ => ⟨rfl, rfl⟩⟩

theorem Cleared.trans {t₁ t₂ : Nat → Prop} {s s₁ s₂ : Memory} (h₁ : Cleared F root lo hi t₁ s s₁)
    (h₂ : Cleared F root lo hi t₂ s₁ s₂) (hapart : ∀ a, t₁ a → ¬ t₂ a) :
    Cleared F root lo hi (fun a => t₁ a ∨ t₂ a) s s₂ := by
  refine ⟨fun a ha ht hw => ?_, fun a ha ht hw => ?_, fun a ha ht => ?_⟩
  · rcases ht with ht | ht
    · rw [(h₂.out a ha (hapart a ht)).2]
      exact h₁.gone a ha ht hw
    · have ho := h₁.out a ha fun h => hapart a h ht
      exact h₂.gone a ha ht (by rw [ho.1]; exact hw)
  · rcases ht with ht | ht
    · rw [(h₂.out a ha (hapart a ht)).2]
      exact h₁.kept a ha ht hw
    · have ho := h₁.out a ha fun h => hapart a h ht
      rw [h₂.kept a ha ht (by rw [ho.1]; exact hw), ho.2]
  · have ho₁ := h₁.out a ha fun h => ht (Or.inl h)
    have ho₂ := h₂.out a ha fun h => ht (Or.inr h)
    exact ⟨ho₂.1.trans ho₁.1, ho₂.2.trans ho₁.2⟩

/-- Tables above the level stay where they are. -/
theorem Sheds.tableAt {K K' : Nat → Option Kind} {s s' : Memory} {level a : Nat} (h : Sheds level K s K' s')
    (ht : Typed F s K) (hroot : K root = some ⟨F.top, 512⟩) :
    Koros.Mmu.tableAt F s' root a (F.top - level) = Koros.Mmu.tableAt F s root a (F.top - level) := by
  refine tableAt_congr fun m hm p hp => ?_
  have hk := ht.tableAt_own hroot (by omega) hp
  rw [h.mem_eq hk (by show level < F.top - m; omega)]

theorem entry_base (b i level : Nat) : b * span (level + 1) + i * span level = (b * 512 + i) * span level := by
  rw [span_eq, span_eq, Nat.pow_succ]
  ring

/-- The slot of entry `i` of the table of region `b`. -/
theorem entry_slot {s : Memory} {K : Nat → Option Kind} {level page b i : Nat} (h : Typed F s K)
    (hroot : K root = some ⟨F.top, 512⟩) (hlevel : level ≤ F.top) (hb : b * span (level + 1) < span (F.top + 1))
    (hat : tableAt F s root (b * span (level + 1)) (F.top - level) = some page) (hi₂ : i < 512) :
    Slot F s K root level page ((b * 512 + i) * span level) := by
  have hpos := span_pos level
  refine ⟨h, hroot, hlevel, ?_, ?_⟩
  · obtain ⟨m, hm⟩ := span_mul_div (l := level + 1) (k := F.top + 1) (by omega)
    have hb' : b < m := by
      rw [hm, Nat.mul_comm] at hb
      exact Nat.lt_of_mul_lt_mul_left hb
    have hsucc : span (level + 1) = 512 * span level := by rw [span_eq, span_eq, Nat.pow_succ]; ring
    calc (b * 512 + i) * span level < (b * 512 + 512) * span level := Nat.mul_lt_mul_of_pos_right (by omega) hpos
      _ = (b + 1) * span (level + 1) := by rw [hsucc]; ring
      _ ≤ m * span (level + 1) := Nat.mul_le_mul_right _ hb'
      _ = span (F.top + 1) := by rw [hm, Nat.mul_comm]
  · rw [← hat]
    refine tableAt_same (Nat.sub_le _ _) ?_
    rw [Nat.sub_sub_self hlevel, Nat.mul_div_cancel _ (span_pos _), div_span_succ, Nat.mul_div_cancel _ hpos]
    omega

/-- Clearing an entry hides its addresses. -/
theorem Slot.clear (hF : F.Lawful) {s s' : Memory} {K : Nat → Option Kind} {level page va i : Nat}
    (h : Slot F s K root level page va) (hi₂ : i = tableIndex va level)
    (hmem : ∀ f j, s'.mem f j = if f = page ∧ j = i then 0 else s.mem f j) {a : Nat} (ha : a < span (F.top + 1)) :
    (a / span level = va / span level → view F s' root a = none) ∧
    (a / span level ≠ va / span level → walk F s' a F.top root = walk F s a F.top root ∧
      view F s' root a = view F s root a) := by
  subst hi₂
  have hmem' : ∀ f j, K f ≠ none → ¬ (f = page ∧ j = tableIndex va level) → s'.mem f j = s.mem f j :=
    fun f j _ hfj => by rw [hmem, if_neg hfj]
  refine ⟨fun hsame => ?_, fun hne => ?_⟩
  swap
  · obtain ⟨hw, hv⟩ := h.change_out hmem' ha hne
    exact ⟨hw, view_congr hw hv⟩
  have hidx : tableIndex a level = tableIndex va level := by rw [tableIndex_eq_span, tableIndex_eq_span, hsame]
  have hat : tableAt F s' root a (F.top - level) = some page := (h.congr ha hsame).change (by rw [hidx]; exact hmem')
  have hzero : s'.mem page (tableIndex a level) = 0 := by rw [hmem, if_pos ⟨rfl, hidx⟩]
  rw [view_of_tableAt (Nat.sub_le _ _) hat, Nat.sub_sub_self h.level_le]
  exact viewAt_zero hF hzero

/-- What a call of `unmap_in` one level below `level` does to the leaves. -/
def ClearsBelow (F : PteFormat) (bound : Nat) (other : List Extent) (kernel : Nat → Prop) (data : List Nat) (root level : Nat)
    (recur : (page base start stop : Nat) → Memory × Nat → Option (Memory × Nat)) : Prop :=
  ∀ {l : Nat}, level = l + 1 → ∀ {c b lo hi : Nat} {s₁ : Memory} {K₁ : Nat → Option Kind} {tables₁ : List Nat} {u : Nat}
    {x : Memory × Nat}, Census F bound other kernel data s₁ K₁ tables₁ → K₁ root = some ⟨F.top, 512⟩ →
    b * span (l + 1) < span (F.top + 1) → tableAt F s₁ root (b * span (l + 1)) (F.top - l) = some c →
    lo % pageSize = 0 → hi % pageSize = 0 → b * span (l + 1) ≤ lo → lo < hi → hi ≤ b * span (l + 1) + span (l + 1) →
    recur c (b * span (l + 1)) lo hi (s₁, u) = some x → Cleared F root lo hi (fun a => a / span (l + 1) = b) s₁ x.1

/-- One iteration of `unmap_in`, at entry `i` of the table of region `b`. -/
theorem unmapEntry_view (hF : F.Lawful) {recur : (page base start stop : Nat) → Memory × Nat → Option (Memory × Nat)}
    {level : Nat} (hsheds : ShedsBelow F bound other kernel data level recur)
    (hrecur : ClearsBelow F bound other kernel data root level recur)
    {page b i : Nat} {s : Memory} {K : Nat → Option Kind} {tables : List Nat} {u : Nat} {x : Memory × Nat}
    (h : Census F bound other kernel data s K tables) (hroot : K root = some ⟨F.top, 512⟩) (hlevel : level ≤ F.top)
    (hb : b * span (level + 1) < span (F.top + 1))
    (hat : tableAt F s root (b * span (level + 1)) (F.top - level) = some page) (hi₂ : i < 512)
    (hlo : lo % pageSize = 0) (hhi : hi % pageSize = 0) (hlt : lo < hi) (hmeet₁ : lo < (b * 512 + i) * span level + span level)
    (hmeet₂ : (b * 512 + i) * span level < hi)
    (he : Memory.unmapEntry F recur level page (b * span (level + 1)) lo hi (s, u) i = some x) :
    Cleared F root lo hi (fun a => a / span level = b * 512 + i) s x.1 := by
  have hslot := entry_slot h.typed hroot hlevel hb hat hi₂
  have hpos := span_pos level
  set va := (b * 512 + i) * span level with hva
  have hdiv : va / span level = b * 512 + i := Nat.mul_div_cancel _ hpos
  have hidx : ∀ {a : Nat}, a / span level = b * 512 + i → tableIndex a level = i := fun ht => by
    rw [tableIndex_eq_span, ht]
    omega
  have hmine : ∀ {a : Nat}, a < span (F.top + 1) → a / span level = b * 512 + i → Slot F s K root level page a :=
    fun ha ht => hslot.congr ha (by rw [ht, hdiv])
  have hregion : ∀ {a : Nat}, a / span level = b * 512 + i → a / span level * span level = va := fun ht => by
    rw [ht]
  -- what the call one level down does, seen from here
  have hdown : ∀ {l c u₁ : Nat} {s₁ : Memory}, level = l + 1 → Points F s page (l + 1) i c →
      recur c va (max lo va) (min hi (va + span level)) (s, u) = some (s₁, u₁) →
      Cleared F root lo hi (fun a => a / span level = b * 512 + i) s s₁ := by
    intro l c u₁ s₁ hl hp hrec
    subst hl
    have hc : tableAt F s root va (F.top - l) = some c := by
      have hn : F.top - l = F.top - (l + 1) + 1 := by omega
      rw [hn]
      refine tableAt_points hslot.reached (Nat.sub_add_cancel hlevel) ?_
      rw [hidx hdiv]
      exact hp
    have hspan : pageSize ∣ span (l + 1) := ⟨_, span_eq _⟩
    have hval : pageSize ∣ va := Dvd.dvd.mul_left hspan _
    have hmax : max lo va % pageSize = 0 := by
      rcases max_choice lo va with hm | hm <;> rw [hm]
      exacts [hlo, Nat.mod_eq_zero_of_dvd hval]
    have hmin : min hi (va + span (l + 1)) % pageSize = 0 := by
      rcases min_choice hi (va + span (l + 1)) with hm | hm <;> rw [hm]
      exacts [hhi, Nat.mod_eq_zero_of_dvd (Nat.dvd_add hval hspan)]
    have hcl := hrecur rfl h hroot hslot.lt hc hmax hmin (Nat.le_max_right ..)
      (by have := span_pos (l + 1); omega) (Nat.min_le_right ..) hrec
    have hcut : ∀ {a : Nat}, a < span (F.top + 1) → a / span (l + 1) = b * 512 + i →
        (Whole (max lo va) (min hi (va + span (l + 1))) (walk F s a F.top root).1 a ↔
          Whole lo hi (walk F s a F.top root).1 a) := by
      intro a ha ht
      rw [← hregion ht]
      refine whole_cut ?_
      rw [(hmine ha ht).walk_eq]
      exact walk_level_le _ _
    exact ⟨fun a ha ht hw => hcl.gone a ha ht ((hcut ha ht).2 hw),
      fun a ha ht hw => hcl.kept a ha ht fun hw' => hw ((hcut ha ht).1 hw'), hcl.out⟩
  have hstep := unmapEntry_cases hi₂ he
  obtain ⟨s', u'⟩ := x
  have hbase : b * span (level + 1) + i * span level = va := entry_base b i level
  cases hstep with
  | absent hpr =>
    refine .refl fun a ha ht _ => ?_
    have hend := (hmine ha ht).ends (Or.inl (by rw [hidx ht]; exact hpr))
    rw [hend.2, hidx ht, seen, hpr]
    rfl
  | kept hpr hlf hpart =>
    rw [hbase] at hpart
    refine .refl fun a ha ht hw => absurd hw fun hw => hpart ?_
    have hend := (hmine ha ht).ends (Or.inr (by rw [hidx ht]; exact hlf))
    rw [hend.1] at hw
    rw [← hregion ht]
    exact hw
  | stray hpr hlf hzero =>
    subst hzero
    rw [h.typed.leaf hslot.kind hi₂ hpr] at hlf
    cases hlf
  | cleared hpr hlf hcov hset =>
    rw [hbase] at hcov
    have hmem : ∀ f j, s'.mem f j = if f = page ∧ j = i then 0 else s.mem f j := fun f j => by
      rw [(setStatus_some hset).1, mem_setEntry]
    have hch := fun {a : Nat} (ha : a < span (F.top + 1)) => hslot.clear hF (hidx hdiv).symm hmem ha
    rw [hdiv] at hch
    refine ⟨fun a ha ht _ => (hch ha).1 ht, fun a ha ht hw => absurd ?_ hw, fun a ha ht => (hch ha).2 ht⟩
    have hend := (hmine ha ht).ends (Or.inr (by rw [hidx ht]; exact hlf))
    rw [hend.1, Whole, hregion ht]
    rcases hcov with hcov | rfl
    · exact hcov
    · -- a page that meets the range lies in it
      have hs0 : span 0 = pageSize := rfl
      have hva0 : va % pageSize = 0 := by rw [hva, hs0]; exact Nat.mul_mod_left ..
      rw [hs0] at hmeet₁ ⊢
      simp only [pageSize] at *
      omega
  | descended hl hp hrec =>
    rw [hbase] at hrec
    exact hdown hl hp hrec
  | @emptied l c u₁ s₁ _ hl hp hrec hempty hmem hmeta hfree =>
    rw [hbase] at hrec
    have hcl := hdown hl hp hrec
    subst hl
    have hkc : K c = some ⟨l, 512⟩ := by rw [h.typed.child hslot.kind hp, Kind.child, if_pos hi₂]
    obtain ⟨K₁, tables₁, h₁, hsh⟩ := hsheds rfl h hkc hrec
    -- the entry still points to the table, which is empty now
    have hslot₁ : Slot F s₁ K₁ root (l + 1) page va := by
      refine ⟨h₁.typed, hsh.keep hroot (by show l ≤ F.top; omega), hlevel, hslot.lt, ?_⟩
      have hup : Sheds (l + 1) K s K₁ s₁ :=
        ⟨hsh.sub, fun hk hl => hsh.keep hk (by omega), fun hk hl => hsh.mem_eq hk (by omega), hsh.stat⟩
      rw [hup.tableAt h.typed hroot]
      exact hslot.reached
    have hmem₁ : s₁.mem page = s.mem page := hsh.mem_eq hslot.kind (Nat.lt_succ_self l)
    have hp₁ : Points F s₁ page (l + 1) i c :=
      ⟨hi₂, by rw [hmem₁]; exact hp.present, by rw [hmem₁]; exact hp.not_leaf, by rw [hmem₁]; exact hp.phys⟩
    have hnone : ∀ {a : Nat}, a < span (F.top + 1) → a / span (l + 1) = b * 512 + i → view F s₁ root a = none := by
      intro a ha ht
      have hslota := hslot₁.congr ha (show a / span (l + 1) = va / span (l + 1) by rw [ht, hdiv])
      have hzero : s₁.mem c (tableIndex a l) = 0 := hempty _ (tableIndex_lt a l)
      rw [hslota.view_eq, viewAt_of_points (by rw [hidx ht]; exact hp₁)]
      exact viewAt_zero hF hzero
    have hch := fun {a : Nat} (ha : a < span (F.top + 1)) => hslot₁.clear hF (hidx hdiv).symm hmem ha
    rw [hdiv] at hch
    refine ⟨fun a ha ht _ => (hch ha).1 ht, fun a ha ht hw => ?_, fun a ha ht => ?_⟩
    · rw [(hch ha).1 ht, ← hcl.kept a ha ht hw, hnone ha ht]
    · obtain ⟨hw₁, hv₁⟩ := hcl.out a ha ht
      obtain ⟨hw₂, hv₂⟩ := (hch ha).2 ht
      exact ⟨hw₂.trans hw₁, hv₂.trans hv₁⟩

/-- The loop of `unmap_in` over entries of one table. -/
theorem unmapEntries_view (hF : F.Lawful) {recur : (page base start stop : Nat) → Memory × Nat → Option (Memory × Nat)}
    {level : Nat} (hsheds : ShedsBelow F bound other kernel data level recur)
    (hrecur : ClearsBelow F bound other kernel data root level recur)
    {page b : Nat} (hlevel : level ≤ F.top) (hb : b * span (level + 1) < span (F.top + 1)) (hlo : lo % pageSize = 0)
    (hhi : hi % pageSize = 0) (hlt : lo < hi) : ∀ (is : List Nat) {s : Memory} {K : Nat → Option Kind}
      {tables : List Nat} {u : Nat} {x : Memory × Nat}, is.Nodup →
    (∀ i ∈ is, i < 512 ∧ lo < (b * 512 + i) * span level + span level ∧ (b * 512 + i) * span level < hi) →
    Census F bound other kernel data s K tables → K root = some ⟨F.top, 512⟩ →
    tableAt F s root (b * span (level + 1)) (F.top - level) = some page →
    is.foldlM (Memory.unmapEntry F recur level page (b * span (level + 1)) lo hi) (s, u) = some x →
    Cleared F root lo hi (fun a => ∃ i ∈ is, a / span level = b * 512 + i) s x.1 := by
  intro is
  induction is with
  | nil =>
    intro s K tables u x _ _ _ _ _ he
    cases he
    exact .refl fun a _ ht => by simp at ht
  | cons i is ih =>
    intro s K tables u x hnd his h hroot hat he
    rw [List.foldlM_cons] at he
    obtain ⟨⟨s₁, u₁⟩, he₁, he⟩ := Option.bind_eq_some_iff.1 he
    obtain ⟨hi₂, hm₁, hm₂⟩ := his i List.mem_cons_self
    have hkind := (entry_slot h.typed hroot hlevel hb hat hi₂).kind
    obtain ⟨K₁, tables₁, h₁, hsh⟩ := unmapEntry_sheds hF hsheds h hkind hi₂ hi₂ he₁
    have hc₁ := unmapEntry_view hF hsheds hrecur h hroot hlevel hb hat hi₂ hlo hhi hlt hm₁ hm₂ he₁
    have hat₁ : tableAt F s₁ root (b * span (level + 1)) (F.top - level) = some page := by
      rw [hsh.tableAt h.typed hroot]
      exact hat
    have hc₂ := ih (List.nodup_cons.1 hnd).2 (fun j hj => his j (List.mem_cons_of_mem _ hj)) h₁
      (hsh.keep hroot hlevel) hat₁ he
    have hapart : ∀ a, a / span level = b * 512 + i → ¬ ∃ j ∈ is, a / span level = b * 512 + j := by
      rintro a ha ⟨j, hj, hja⟩
      obtain rfl : i = j := by omega
      exact (List.nodup_cons.1 hnd).1 hj
    refine ⟨fun a ha ht hw => (hc₁.trans hc₂ hapart).gone a ha ?_ hw,
      fun a ha ht hw => (hc₁.trans hc₂ hapart).kept a ha ?_ hw, fun a ha ht => (hc₁.trans hc₂ hapart).out a ha ?_⟩
    · simpa using ht
    · simpa using ht
    · simpa using ht

/-- **`unmap_in`**: among the addresses of the table, those whose whole leaf lies in the range are gone. -/
theorem unmapIn_view (hF : F.Lawful) : ∀ (level : Nat) {page b lo hi : Nat} {s : Memory} {K : Nat → Option Kind}
    {tables : List Nat} {u : Nat} {x : Memory × Nat}, level ≤ F.top → Census F bound other kernel data s K tables →
    K root = some ⟨F.top, 512⟩ → b * span (level + 1) < span (F.top + 1) →
    tableAt F s root (b * span (level + 1)) (F.top - level) = some page → lo % pageSize = 0 → hi % pageSize = 0 →
    b * span (level + 1) ≤ lo → lo < hi → hi ≤ b * span (level + 1) + span (level + 1) →
    Memory.unmapIn F level page (b * span (level + 1)) lo hi (s, u) = some x →
    Cleared F root lo hi (fun a => a / span (level + 1) = b) s x.1 := by
  -- the entries between the first and the last one are those that meet the range
  have hindex : ∀ {level b lo hi : Nat}, b * span (level + 1) ≤ lo → lo < hi →
      hi ≤ b * span (level + 1) + span (level + 1) →
      lo / span level = b * 512 + tableIndex lo level ∧ (hi - 1) / span level = b * 512 + tableIndex (hi - 1) level := by
    intro level b lo hi h₁ h₂ h₃
    have hreg : ∀ a, b * span (level + 1) ≤ a → a < b * span (level + 1) + span (level + 1) →
        a / span level = b * 512 + tableIndex a level := by
      intro a ha hb
      have hq : a / span (level + 1) = b :=
        Nat.div_eq_of_lt_le ha (by rw [Nat.succ_mul]; exact hb)
      rw [div_span_succ] at hq
      rw [tableIndex_eq_span]
      omega
    exact ⟨hreg lo h₁ (by omega), hreg (hi - 1) (by omega) (by omega)⟩
  have hloop : ∀ {level b lo hi : Nat} {s s' : Memory}, b * span (level + 1) ≤ lo → lo < hi →
      hi ≤ b * span (level + 1) + span (level + 1) →
      Cleared F root lo hi (fun a => ∃ i ∈ List.range' (tableIndex lo level)
        (tableIndex (hi - 1) level + 1 - tableIndex lo level), a / span level = b * 512 + i) s s' →
      Cleared F root lo hi (fun a => a / span (level + 1) = b) s s' := by
    intro level b lo hi s s' h₁ h₂ h₃ hc
    obtain ⟨hfirst, hlast⟩ := hindex h₁ h₂ h₃
    have hin : ∀ a l, a / span (level + 1) = b → Whole lo hi l a → ∃ i ∈ List.range' (tableIndex lo level)
        (tableIndex (hi - 1) level + 1 - tableIndex lo level), a / span level = b * 512 + i := by
      intro a l ht hw
      obtain ⟨hle, hlt⟩ := hw.le
      have hd₁ : lo / span level ≤ a / span level := Nat.div_le_div_right hle
      have hd₂ : a / span level ≤ (hi - 1) / span level := Nat.div_le_div_right (by omega)
      rw [div_span_succ] at ht
      refine ⟨a / span level % 512, List.mem_range'_1.2 ⟨?_, ?_⟩, ?_⟩ <;> omega
    refine ⟨fun a ha ht hw => hc.gone a ha (hin a _ ht hw) hw, fun a ha ht hw => ?_, fun a ha ht => hc.out a ha ?_⟩
    · by_cases hi' : ∃ i ∈ List.range' (tableIndex lo level)
          (tableIndex (hi - 1) level + 1 - tableIndex lo level), a / span level = b * 512 + i
      · exact hc.kept a ha hi' hw
      · exact (hc.out a ha hi').2
    · rintro ⟨i, hi', hia⟩
      have hlt := tableIndex_lt (hi - 1) level
      have hmem := List.mem_range'_1.1 hi'
      rw [div_span_succ] at ht
      omega
  have hmeets : ∀ {level b lo hi : Nat}, b * span (level + 1) ≤ lo → lo < hi →
      hi ≤ b * span (level + 1) + span (level + 1) → ∀ i ∈ List.range' (tableIndex lo level)
        (tableIndex (hi - 1) level + 1 - tableIndex lo level),
      i < 512 ∧ lo < (b * 512 + i) * span level + span level ∧ (b * 512 + i) * span level < hi := by
    intro level b lo hi h₁ h₂ h₃ i hi'
    obtain ⟨hfirst, hlast⟩ := hindex h₁ h₂ h₃
    have hlt := tableIndex_lt (hi - 1) level
    have hmem := List.mem_range'_1.1 hi'
    have hpos := span_pos level
    refine ⟨by omega, ?_, ?_⟩
    · rw [← Nat.succ_mul]
      exact (Nat.div_lt_iff_lt_mul hpos).1 (by omega)
    · have hle := (Nat.le_div_iff_mul_le hpos).1 (show b * 512 + i ≤ (hi - 1) / span level by omega)
      omega
  intro level
  induction level with
  | zero =>
    intro page b lo hi s K tables u x hlevel h hroot hb hat hlo hhi h₁ h₂ h₃ he
    rw [Memory.unmapIn] at he
    exact hloop h₁ h₂ h₃ (unmapEntries_view hF (fun {l} hl => absurd hl (Nat.succ_ne_zero l).symm)
      (fun {l} hl => absurd hl (Nat.succ_ne_zero l).symm) hlevel hb hlo hhi h₂ _ (List.nodup_range' _)
      (hmeets h₁ h₂ h₃) h hroot hat he)
  | succ level ih =>
    intro page b lo hi s K tables u x hlevel h hroot hb hat hlo hhi h₁ h₂ h₃ he
    rw [Memory.unmapIn] at he
    refine hloop h₁ h₂ h₃ (unmapEntries_view hF (fun {l} hl => ?_) (fun {l} hl => ?_) hlevel hb hlo hhi h₂ _
      (List.nodup_range' _) (hmeets h₁ h₂ h₃) h hroot hat he)
    · obtain rfl : level = l := by omega
      intro c base lo' hi' s₁ K₁ tables₁ u₁ x₁ hc₁ hk he₁
      exact unmapIn_sheds hF level hc₁ hk (tableIndex_lt _ _) he₁
    · obtain rfl : level = l := by omega
      intro c b' lo' hi' s₁ K₁ tables₁ u₁ x₁ hc₁ hroot₁ hb₁ hat₁ hlo₁ hhi₁ g₁ g₂ g₃ he₁
      exact ih (by omega) hc₁ hroot₁ hb₁ hat₁ hlo₁ hhi₁ g₁ g₂ g₃ he₁

end Unmapping

end Koros.Mmu
