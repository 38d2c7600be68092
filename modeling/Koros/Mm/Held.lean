import Koros.Mmu.Outline
import Koros.Mm.Tree

/-!
# Loops over pages, whatever their outcome

`Held R rest s`: beside the frames `rest` of others, memory `s` holds a page table all of whose live words lead to frames
that `R` allows, `R v f` for page `v` and frame `f`. The engine's calls and the loops over pages keep this on every path,
those that run out of memory and those that cannot undo what they did included.

- `map_held`, `unmap_held`: one page;
- `unmapAll_held`, `rollback_held`, `mapAll_held`: the loops;
- `destroyTable_held`: dropping a table frees frames of that table only, each once.
-/
set_option autoImplicit false

namespace Koros.Mm

open Koros.Frame Koros.Mmu

/-- The page table at `root` consists of the frames `tables`, and its live words lead to frames that `R` allows. -/
def Spans (F : PteFormat) (half : Nat) (s : Memory) (root : Nat) (R : Nat → Nat → Prop) (tables : List Nat) : Prop :=
  ∃ T W, Outline F (· < half) root s T W ∧ Lists T tables ∧ ∀ v, F.live (W v) = true → R v (F.entryPhys (W v) 0)

section

variable {F : PteFormat} {half root bound : Nat} {R R' : Nat → Nat → Prop} {tables rest keep : List Nat}
  {other : List Extent} {s s' : Memory} {va : Nat}

theorem Spans.mono (h : Spans F half s root R tables) (hR : ∀ v f, R v f → R' v f) : Spans F half s root R' tables := by
  obtain ⟨T, W, ho, hT, hW⟩ := h
  exact ⟨T, W, ho, hT, fun v hv => hR _ _ (hW v hv)⟩

theorem Spans.same (h : Spans F half s root R tables) (hs : Same tables s s') : Spans F half s' root R tables := by
  obtain ⟨T, W, ho, hT, hW⟩ := h
  exact ⟨T, W, ho.same hT hs, hT, hW⟩

variable (F half root bound R other) in
/-- A page table with live words in `R`, its tables allocated beside the frames `rest`. -/
def Held (rest : List Nat) (s : Memory) : Prop :=
  ∃ tables, Spans F half s root R tables ∧ Pool bound s.frames (tables ++ rest) other

theorem Held.mono (h : Held F half root bound R other rest s) (hR : ∀ v f, R v f → R' v f) :
    Held F half root bound R' other rest s := by
  obtain ⟨tables, hs, hpool⟩ := h
  exact ⟨tables, hs.mono hR, hpool⟩

theorem Held.frameOk (hb : bound ≤ 2 ^ 36) (h : Held F half root bound R other rest s) {f : Nat} (hf : f ∈ rest) :
    FrameOk f := by
  obtain ⟨tables, -, hpool⟩ := h
  exact FrameOk.of_placed hb (hpool.placed (List.mem_append_right _ hf))

/-- A frame of the others is overwritten. -/
theorem Held.overwrite (h : Held F half root bound R other rest s) {p : Nat} (hp : p ∈ rest) {x : Nat → Nat}
    (hmem : s'.mem = Function.update s.mem p x) (hfr : s'.frames = s.frames) :
    Held F half root bound R other rest s' := by
  obtain ⟨tables, hs, hpool⟩ := h
  refine ⟨tables, hs.same (Same.of_update (fun ht => ?_) hmem), by rw [hfr]; exact hpool⟩
  exact List.disjoint_of_nodup_append hpool.nodup ht hp

/-! ## One page -/

/-- A page-aligned address that the first `half` entries of the root translate. -/
def Inside (F : PteFormat) (half va : Nat) : Prop := va % pageSize = 0 ∧ Below F half (va / pageSize)

theorem map_held (hF : F.Lawful) (hb : bound ≤ 2 ^ 36) (hhalf : half ≤ 512) (h : Held F half root bound R other rest s)
    (hva : Inside F half va) {phys : Nat} (hphys : FrameOk phys) {flags : MappingFlags} {r : Except MapError Unit}
    (he : AddrSpace.map F s root va phys flags .page4K = some (r, s')) :
    (r = .ok () ∧ Held F half root bound (fun w f => w ≠ va / pageSize ∧ R w f ∨ w = va / pageSize ∧ f = phys) other
        rest s' ∨ (∃ e, r = .error e) ∧ Held F half root bound R other rest s') ∧ Same rest s s' := by
  obtain ⟨tables, ⟨T, W, ho, hT, hW⟩, hpool⟩ := h
  have hspan : span 0 = pageSize := rfl
  simp only [AddrSpace.map, Memory.cursorMap, MapSize.level, hspan, hva.1, hphys.1, ne_eq, not_true_eq_false, or_self,
    if_false, Option.bind_eq_bind, Option.bind_eq_some_iff] at he
  obtain ⟨_, -, he⟩ := he
  have hroot : T F.top (region (F.top + 1) (va / pageSize)) = some root := by
    rw [hva.2.region_top hhalf]
    exact ho.root_eq
  obtain ⟨T', W', tables', ho', hT', hpool', hs, hres⟩ := mapAt_outline hF hb hva.2 F.top ho hT hpool hroot he
  refine ⟨?_, hs⟩
  rcases hres with ⟨rfl, rfl⟩ | ⟨hr, rfl⟩
  · refine Or.inl ⟨rfl, tables', ⟨T', _, ho', hT', fun v hv => ?_⟩, hpool'⟩
    by_cases hvv : v = va / pageSize
    · subst hvv
      rw [Function.update_self]
      exact Or.inr ⟨rfl, hF.phys_leaf hphys flags 0⟩
    · rw [Function.update_of_ne hvv] at hv ⊢
      exact Or.inl ⟨hvv, hW v hv⟩
  · exact Or.inr ⟨hr, tables', ⟨T', _, ho', hT', hW⟩, hpool'⟩

/-- After `unmap`, whatever it returns, the page is not mapped. -/
theorem unmap_held (hF : F.Lawful) (hhalf : half ≤ 512) (h : Held F half root bound R other rest s)
    (hva : Inside F half va) {r : Except MapError Nat} (he : AddrSpace.unmap F s root va .page4K = some (r, s')) :
    Held F half root bound (fun w f => w ≠ va / pageSize ∧ R w f) other rest s' ∧ Same rest s s' := by
  obtain ⟨tables, ⟨T, W, ho, hT, hW⟩, hpool⟩ := h
  have hroot : T F.top (region (F.top + 1) (va / pageSize)) = some root := by
    rw [hva.2.region_top hhalf]
    exact ho.root_eq
  have hdead : ∀ {T' : Tables} {W' : Nat → Nat} {tables' : List Nat} {s' : Memory}, Outline F (· < half) root s' T' W' →
      Lists T' tables' → (W' = W ∧ F.live (W (va / pageSize)) = false ∨ W' = Function.update W (va / pageSize) 0) →
      Spans F half s' root (fun w f => w ≠ va / pageSize ∧ R w f) tables' := by
    intro T' W' tables' s' ho' hT' hres
    refine ⟨T', W', ho', hT', fun v hv => ?_⟩
    rcases hres with ⟨rfl, hlive⟩ | rfl
    · refine ⟨?_, hW v hv⟩
      rintro rfl
      rw [hlive] at hv
      cases hv
    · by_cases hvv : v = va / pageSize
      · rw [hvv, Function.update_self, hF.live_zero] at hv
        cases hv
      · rw [Function.update_of_ne hvv] at hv ⊢
        exact ⟨hvv, hW v hv⟩
  simp only [AddrSpace.unmap, Option.bind_eq_bind, Option.bind_eq_some_iff] at he
  obtain ⟨t, ht, he⟩ := he
  cases t with
  | none =>
    cases he
    refine ⟨⟨tables, hdead ho hT (Or.inl ⟨rfl, ?_⟩), hpool⟩, Same.refl _ _⟩
    -- a query finds a live word
    by_contra hlive
    simp only [AddrSpace.translate, Option.bind_eq_bind, Option.bind_eq_some_iff] at ht
    obtain ⟨_, -, st, hq, ht⟩ := ht
    obtain ⟨_, _, _, rfl⟩ := queryAt_live hF ho hva.2 (by simpa using hlive) F.top hroot (Nat.le_refl _) hq
    cases ht
  | some paddr =>
    have hlt : ¬ va ≥ va + MapSize.page4K.bytes := by
      show ¬ va ≥ va + pageSize
      unfold pageSize
      omega
    simp only [Memory.cursorUnmap, if_neg hlt, Option.bind_eq_bind, Option.bind_eq_some_iff] at he
    obtain ⟨_, -, ⟨r₁, s₁⟩, ⟨⟨s₂, n⟩, hun, he₁⟩, he⟩ := he
    cases he₁
    cases he
    have hun' : Memory.unmapIn F F.top root (region (F.top + 1) (va / pageSize) * span (F.top + 1)) va (va + pageSize)
        (s, 0) = some (s₂, n) := by
      rw [hva.2.region_top hhalf, Nat.zero_mul]
      exact hun
    obtain ⟨T', W', tables', ho', hT', hpool', hs, -, hres⟩ :=
      unmapIn_outline hF hva.2 hva.1 F.top ho hT hpool hroot (Nat.le_refl _) hun'
    exact ⟨⟨tables', hdead ho' hT' hres, hpool'⟩, hs⟩

/-! ## Loops -/

/-- The loop that unmaps stops at the first error. -/
theorem unmapAll_held (hF : F.Lawful) (hhalf : half ≤ 512) : ∀ (vas : List Nat) {R : Nat → Nat → Prop} {s s' : Memory}
    {r : Except MapError Unit}, Held F half root bound R other rest s → (∀ va ∈ vas, Inside F half va) →
    unmapAll F root vas s = some (r, s') →
    Held F half root bound R other rest s' ∧ Same rest s s' ∧
      (r = .ok () → Held F half root bound (fun w f => w ∉ vas.map (· / pageSize) ∧ R w f) other rest s')
  | [], R, s, s', r, h, _, he => by
    cases he
    exact ⟨h, Same.refl _ _, fun _ => h.mono fun v f hv => ⟨List.not_mem_nil, hv⟩⟩
  | va :: vas, R, s, s', r, h, hvas, he => by
    simp only [unmapAll, Option.bind_eq_bind, Option.bind_eq_some_iff] at he
    obtain ⟨⟨r₁, s₁⟩, he₁, he⟩ := he
    obtain ⟨h₁, hs₁⟩ := unmap_held hF hhalf h (hvas va (List.mem_cons_self ..)) he₁
    cases r₁ with
    | error e =>
      cases he
      exact ⟨h₁.mono fun v f hv => hv.2, hs₁, fun h => by cases h⟩
    | ok p =>
      obtain ⟨h₂, hs₂, hok⟩ := unmapAll_held hF hhalf vas h₁ (fun w hw => hvas w (List.mem_cons_of_mem _ hw)) he
      refine ⟨h₂.mono fun v f hv => hv.2, hs₁.trans hs₂, fun hr => (hok hr).mono ?_⟩
      rintro v f ⟨hv, hne, hR⟩
      exact ⟨by rw [List.map_cons, List.mem_cons, not_or]; exact ⟨hne, hv⟩, hR⟩

/-- The pages of a list of recorded pages. -/
def Old (old : List (Nat × VmPage)) (v f : Nat) : Prop := ∃ x ∈ old, x.1 / pageSize = v ∧ x.2.phys = f

theorem rollback_held (hF : F.Lawful) (hb : bound ≤ 2 ^ 36) (hhalf : half ≤ 512) {mapped : List Nat}
    {old : List (Nat × VmPage)} (h : Held F half root bound R other rest s) (hmapped : ∀ va ∈ mapped, Inside F half va)
    (hold : ∀ x ∈ old, Inside F half x.1 ∧ x.2.phys ∈ rest) (he : rollback F root mapped old s = some s') :
    Held F half root bound (fun w f => w ∉ mapped.map (· / pageSize) ∧ R w f ∨ Old old w f) other rest s' ∧
      Same rest s s' := by
  -- the mapped pages go
  have hunmap : ∀ (l : List Nat) {R : Nat → Nat → Prop} {s s' : Memory}, Held F half root bound R other rest s →
      (∀ va ∈ l, Inside F half va) →
      l.foldlM (fun s va => (AddrSpace.unmap F s root va .page4K).map Prod.snd) s = some s' →
      Held F half root bound (fun w f => w ∉ l.map (· / pageSize) ∧ R w f) other rest s' ∧ Same rest s s' := by
    intro l
    induction l with
    | nil =>
      intro R s s' h _ he
      cases he
      exact ⟨h.mono fun v f hv => ⟨List.not_mem_nil, hv⟩, Same.refl _ _⟩
    | cons va l ih =>
      intro R s s' h hl he
      simp only [List.foldlM_cons, Option.bind_eq_bind, Option.bind_eq_some_iff, Option.map_eq_some_iff] at he
      obtain ⟨s₁, ⟨⟨r, s₁'⟩, he₁, rfl⟩, he⟩ := he
      obtain ⟨h₁, hs₁⟩ := unmap_held hF hhalf h (hl va (List.mem_cons_self ..)) he₁
      obtain ⟨h₂, hs₂⟩ := ih h₁ (fun w hw => hl w (List.mem_cons_of_mem _ hw)) he
      refine ⟨h₂.mono ?_, hs₁.trans hs₂⟩
      rintro v f ⟨hv, hne, hR⟩
      exact ⟨by rw [List.map_cons, List.mem_cons, not_or]; exact ⟨hne, hv⟩, hR⟩
  -- the old pages come back, as far as there are frames for their tables
  have hmap : ∀ (l : List (Nat × VmPage)) {R : Nat → Nat → Prop} {s s' : Memory}, Held F half root bound R other rest s →
      (∀ x ∈ l, Inside F half x.1 ∧ x.2.phys ∈ rest) →
      l.foldlM (fun s (x : Nat × VmPage) => (AddrSpace.map F s root x.1 x.2.phys x.2.flags .page4K).map Prod.snd) s =
        some s' →
      Held F half root bound (fun w f => R w f ∨ Old l w f) other rest s' ∧ Same rest s s' := by
    intro l
    induction l with
    | nil =>
      intro R s s' h _ he
      cases he
      exact ⟨h.mono fun v f hv => Or.inl hv, Same.refl _ _⟩
    | cons x l ih =>
      intro R s s' h hl he
      simp only [List.foldlM_cons, Option.bind_eq_bind, Option.bind_eq_some_iff, Option.map_eq_some_iff] at he
      obtain ⟨s₁, ⟨⟨r, s₁'⟩, he₁, rfl⟩, he⟩ := he
      obtain ⟨hx, hphys⟩ := hl x (List.mem_cons_self ..)
      obtain ⟨hres, hs₁⟩ := map_held hF hb hhalf h hx (h.frameOk hb hphys) he₁
      have h₁ : Held F half root bound (fun w f => R w f ∨ Old [x] w f) other rest s₁' := by
        rcases hres with ⟨-, h₁⟩ | ⟨-, h₁⟩
        · refine h₁.mono fun v f hv => ?_
          rcases hv with ⟨-, hv⟩ | ⟨rfl, rfl⟩
          · exact Or.inl hv
          · exact Or.inr ⟨x, List.mem_singleton_self _, rfl, rfl⟩
        · exact h₁.mono fun v f hv => Or.inl hv
      obtain ⟨h₂, hs₂⟩ := ih h₁ (fun w hw => hl w (List.mem_cons_of_mem _ hw)) he
      refine ⟨h₂.mono fun v f hv => ?_, hs₁.trans hs₂⟩
      rcases hv with (hv | ⟨y, hy, hyv⟩) | ⟨y, hy, hyv⟩
      · exact Or.inl hv
      · exact Or.inr ⟨y, List.mem_singleton.1 hy ▸ List.mem_cons_self .., hyv⟩
      · exact Or.inr ⟨y, List.mem_cons_of_mem _ hy, hyv⟩
  simp only [rollback, Option.bind_eq_bind, Option.bind_eq_some_iff] at he
  obtain ⟨s₁, he₁, he⟩ := he
  obtain ⟨h₁, hs₁⟩ := hunmap mapped h hmapped he₁
  obtain ⟨h₂, hs₂⟩ := hmap old h₁ hold he
  exact ⟨h₂, hs₁.trans hs₂⟩

/-- The pages of a list of new pages. -/
def New (l : List (Nat × Nat)) (v f : Nat) : Prop := ∃ x ∈ l, x.1 / pageSize = v ∧ x.2 = f

/-- The loop that maps, after the pages of `done`: it maps the rest, or takes everything back and restores the old pages
as far as it can. -/
theorem mapAll_held (hF : F.Lawful) (hb : bound ≤ 2 ^ 36) (hhalf : half ≤ 512) {flags : MappingFlags} {zero : Bool}
    {old : List (Nat × VmPage)} (hkeep : ∀ f ∈ keep, f ∈ rest) (hold : ∀ x ∈ old, Inside F half x.1 ∧ x.2.phys ∈ rest) :
    ∀ (l done : List (Nat × Nat)) {s s' : Memory} {r : Except MapError Unit},
    Held F half root bound (fun w f => R w f ∨ New done w f) other rest s → (∀ x ∈ done, Inside F half x.1) →
    (∀ x ∈ l, Inside F half x.1 ∧ x.2 ∈ rest ∧ (zero = true → x.2 ∉ keep)) →
    mapAll F root flags zero old (done.map Prod.fst) l s = some (r, s') →
    (r = .ok () ∧ Held F half root bound (fun w f => R w f ∨ New (done ++ l) w f) other rest s' ∨
      (∃ e, r = .error e) ∧ Held F half root bound (fun w f => R w f ∨ Old old w f) other rest s') ∧ Same keep s s'
  | [], done, s, s', r, h, _, _, he => by
    cases he
    exact ⟨Or.inl ⟨rfl, by rw [List.append_nil]; exact h⟩, Same.refl _ _⟩
  | (va, phys) :: l, done, s, s', r, h, hdone, hl, he => by
    obtain ⟨hva, hrest, hz⟩ := hl _ (List.mem_cons_self ..)
    simp only [mapAll, Option.bind_eq_bind, Option.bind_eq_some_iff] at he
    obtain ⟨⟨r₁, s₁⟩, he₁, he⟩ := he
    obtain ⟨hres, hs₁⟩ := map_held hF hb hhalf h hva (h.frameOk hb hrest) he₁
    rcases hres with ⟨rfl, h₁⟩ | ⟨⟨e, rfl⟩, h₁⟩
    swap
    · simp only [Option.bind_eq_some_iff] at he
      obtain ⟨s₂, he₂, he⟩ := he
      cases he
      obtain ⟨h₂, hs₂⟩ := rollback_held hF hb hhalf h₁ (fun w hw => by
        obtain ⟨x, hx, rfl⟩ := List.mem_map.1 hw
        exact hdone x hx) hold he₂
      refine ⟨Or.inr ⟨⟨e, rfl⟩, h₂.mono fun v f hv => ?_⟩, (hs₁.mono hkeep).trans (hs₂.mono hkeep)⟩
      rcases hv with ⟨hv, hR | ⟨x, hx, rfl, -⟩⟩ | hv
      · exact Or.inl hR
      · refine absurd (List.mem_map.2 ⟨x.1, List.mem_map_of_mem hx, rfl⟩) hv
      · exact Or.inr hv
    -- zeroing the new page changes neither the tables nor the frames to keep
    let s₂ := if zero then s₁.zeroPage phys else s₁
    have hs₂ : Same keep s₁ s₂ ∧ Held F half root bound (fun w f => R w f ∨ New (done ++ [(va, phys)]) w f) other rest s₂ := by
      have h₁' : Held F half root bound (fun w f => R w f ∨ New (done ++ [(va, phys)]) w f) other rest s₁ := by
        refine h₁.mono fun v f hv => ?_
        rcases hv with ⟨-, hR | ⟨x, hx, hxv⟩⟩ | ⟨rfl, rfl⟩
        · exact Or.inl hR
        · exact Or.inr ⟨x, List.mem_append_left _ hx, hxv⟩
        · exact Or.inr ⟨(va, f), List.mem_append_right _ (List.mem_singleton_self _), rfl, rfl⟩
      cases zero with
      | false => exact ⟨Same.refl _ _, h₁'⟩
      | true => exact ⟨Same.of_update (hz rfl) rfl, h₁'.overwrite hrest rfl rfl⟩
    obtain ⟨hres, hs₃⟩ := mapAll_held hF hb hhalf hkeep hold l (done ++ [(va, phys)]) hs₂.2
      (fun x hx => by
        rcases List.mem_append.1 hx with hx | hx
        · exact hdone x hx
        · exact List.mem_singleton.1 hx ▸ hva) (fun x hx => hl x (List.mem_cons_of_mem _ hx))
      (by rw [List.map_append]; exact he)
    rw [List.append_assoc] at hres
    exact ⟨hres, ((hs₁.mono hkeep).trans hs₂.1).trans hs₃⟩

/-! ## Dropping a table -/

section Drop

/-- The frames that `destroyTable` frees for one entry; `recur` is for the tables one level down. -/
def reclaimedAt (F : PteFormat) (level : Nat) (recur : Nat → List Nat) (entry : Nat) : List Nat :=
  if !F.entryPresent entry then []
  else if F.entryIsLeaf entry level then if level = 0 then [F.entryPhys entry level] else []
  else if level > 0 then recur (F.entryPhys entry level)
  else []

/-- The frames that `destroyTable` frees, in its order. -/
def reclaimed (F : PteFormat) (mem : Nat → Nat → Nat) : (level table : Nat) → List Nat
  | 0, table => (List.range 256).flatMap (fun i => reclaimedAt F 0 (fun _ => []) (mem table i)) ++ [table]
  | level + 1, table =>
    (List.range 256).flatMap (fun i => reclaimedAt F (level + 1) (reclaimed F mem level) (mem table i)) ++ [table]

/-- An iteration of the loop of `destroyTable`. -/
def destroyEntry (F : PteFormat) (level table : Nat) (recur : Nat → Memory → Option Memory) (s : Memory) (i : Nat) :
    Option Memory := do
  let entry := s.mem table i
  if !F.entryPresent entry then some s
  else if F.entryIsLeaf entry level then
    if level = 0 then
      let a ← s.frames.freeFramesAt (F.entryPhys entry level) 1
      some { s with frames := a }
    else some s
  else if level > 0 then recur (F.entryPhys entry level) s
  else some s

theorem destroyTable_zero (F : PteFormat) (table : Nat) (s : Memory) : destroyTable F 0 table s =
    ((List.range 256).foldlM (destroyEntry F 0 table fun _ s => some s) s).bind (freeAll [table]) := rfl

theorem destroyTable_succ (F : PteFormat) (level table : Nat) (s : Memory) : destroyTable F (level + 1) table s =
    ((List.range 256).foldlM (destroyEntry F (level + 1) table (destroyTable F level)) s).bind (freeAll [table]) := rfl

theorem freeAll_mem : ∀ (l : List Nat) {s s' : Memory}, freeAll l s = some s' → s'.mem = s.mem
  | [], _, _, he => by
    cases he
    rfl
  | _ :: l, _, _, he => by
    simp only [freeAll, Option.bind_eq_bind, Option.bind_eq_some_iff] at he
    obtain ⟨_, -, he⟩ := he
    exact (freeAll_mem l he :)

theorem freeAll_append : ∀ (l l' : List Nat) (s : Memory), freeAll (l ++ l') s = (freeAll l s).bind (freeAll l')
  | [], _, _ => rfl
  | phys :: l, l', s => by
    simp only [List.cons_append, freeAll, Option.bind_eq_bind, Option.bind_assoc]
    cases s.frames.freeFramesAt phys 1 with
    | none => rfl
    | some a => exact freeAll_append l l' _

/-- A loop whose iterations free frames frees all of them. -/
theorem foldlM_freeAll {mem : Nat → Nat → Nat} {step : Memory → Nat → Option Memory} {g : Nat → List Nat}
    (hstep : ∀ i s, s.mem = mem → step s i = freeAll (g i) s) : ∀ (l : List Nat) {s : Memory}, s.mem = mem →
    l.foldlM step s = freeAll (l.flatMap g) s
  | [], _, _ => rfl
  | i :: l, s, hs => by
    rw [List.foldlM_cons, List.flatMap_cons, freeAll_append, hstep i s hs]
    cases he : freeAll (g i) s with
    | none => rfl
    | some s' => exact foldlM_freeAll hstep l ((freeAll_mem _ he).trans hs)

theorem destroyEntry_eq {F : PteFormat} {level table : Nat} {mem : Nat → Nat → Nat}
    {recur : Nat → Memory → Option Memory} {g : Nat → List Nat}
    (hrecur : ∀ table s, s.mem = mem → recur table s = freeAll (g table) s) (i : Nat) (s : Memory) (hs : s.mem = mem) :
    destroyEntry F level table recur s i = freeAll (reclaimedAt F level g (mem table i)) s := by
  subst hs
  simp only [destroyEntry, reclaimedAt]
  generalize s.mem table i = entry
  cases F.entryPresent entry with
  | false => rfl
  | true =>
    cases F.entryIsLeaf entry level <;> cases level
    · rfl
    · exact hrecur _ s rfl
    · rfl
    · rfl

theorem destroyTable_eq (F : PteFormat) (mem : Nat → Nat → Nat) : ∀ (level table : Nat) (s : Memory), s.mem = mem →
    destroyTable F level table s = freeAll (reclaimed F mem level table) s
  | 0, table, s, hs => by
    rw [destroyTable_zero, reclaimed, freeAll_append]
    exact congrArg (Option.bind · _) (foldlM_freeAll (destroyEntry_eq (g := fun _ => []) fun _ _ _ => rfl) _ hs)
  | level + 1, table, s, hs => by
    rw [destroyTable_succ, reclaimed, freeAll_append, foldlM_freeAll (destroyEntry_eq (destroyTable_eq F mem level)) _ hs]

/-- Frame `f` is a table or the frame of a live word inside region `q` of level `k`. -/
def Under (F : PteFormat) (T : Tables) (W : Nat → Nat) (k q f : Nat) : Prop :=
  (∃ l p, l < k ∧ T l p = some f ∧ region (k - (l + 1)) p = q) ∨
    ∃ v, F.live (W v) = true ∧ F.entryPhys (W v) 0 = f ∧ region k v = q

theorem Under.up {T : Tables} {W : Nat → Nat} {k q i f : Nat} (h : Under F T W k (q * 512 + i) f) (hi : i < 512) :
    Under F T W (k + 1) q f := by
  rcases h with ⟨l, p, hl, hf, hq⟩ | ⟨v, hv, hf, hq⟩
  · refine Or.inl ⟨l, p, by omega, hf, ?_⟩
    rw [show k + 1 - (l + 1) = k - (l + 1) + 1 by omega, region_succ, hq]
    omega
  · refine Or.inr ⟨v, hv, hf, ?_⟩
    rw [region_succ, hq]
    omega

/-- The frames of the tables and of the live words are all different. -/
structure Apart (F : PteFormat) (T : Tables) (W : Nat → Nat) : Prop where
  tables : ∀ {l p l' p' f : Nat}, T l p = some f → T l' p' = some f → l = l' ∧ p = p'
  words : ∀ {v w : Nat}, F.live (W v) = true → F.live (W w) = true → F.entryPhys (W v) 0 = F.entryPhys (W w) 0 → v = w
  cross : ∀ {l p v : Nat}, F.live (W v) = true → T l p ≠ some (F.entryPhys (W v) 0)

theorem Apart.under_unique {T : Tables} {W : Nat → Nat} (ha : Apart F T W) {k q q' f : Nat} (h : Under F T W k q f)
    (h' : Under F T W k q' f) : q = q' := by
  rcases h with ⟨l, p, -, hf, rfl⟩ | ⟨v, hv, rfl, rfl⟩ <;> rcases h' with ⟨l', p', -, hf', rfl⟩ | ⟨w, hw, hf', rfl⟩
  · obtain ⟨rfl, rfl⟩ := ha.tables hf hf'
    rfl
  · exact absurd (hf' ▸ hf) (ha.cross hw)
  · exact absurd hf' (ha.cross hv)
  · rw [ha.words hv hw hf'.symm]

/-- What is freed under a table lies in its region, and nothing is freed twice. -/
theorem reclaimed_under (hF : F.Lawful) (hhalf : 256 ≤ half) {T : Tables} {W : Nat → Nat}
    (ho : Outline F (· < half) root s T W) (ha : Apart F T W) : ∀ (level : Nat) {page q : Nat}, T level q = some page →
    (∀ f ∈ reclaimed F s.mem level page, Under F T W (level + 1) q f) ∧ (reclaimed F s.mem level page).Nodup := by
  -- one entry after the other: their regions are different, and the table itself is in none of them
  have hjoin : ∀ {level page q : Nat} (g : Nat → List Nat), T level q = some page →
      (∀ i < 256, (∀ f ∈ g i, Under F T W level (q * 512 + i) f) ∧ (g i).Nodup) →
      (∀ f ∈ (List.range 256).flatMap g ++ [page], Under F T W (level + 1) q f) ∧
        ((List.range 256).flatMap g ++ [page]).Nodup := by
    intro level page q g hpage hg
    have hmem : ∀ f ∈ (List.range 256).flatMap g, ∃ i < 256, Under F T W level (q * 512 + i) f := by
      intro f hf
      obtain ⟨i, hi, hf⟩ := List.mem_flatMap.1 hf
      exact ⟨i, List.mem_range.1 hi, (hg i (List.mem_range.1 hi)).1 f hf⟩
    constructor
    · intro f hf
      rcases List.mem_append.1 hf with hf | hf
      · obtain ⟨i, hi, hu⟩ := hmem f hf
        exact hu.up (by omega)
      · obtain rfl := List.mem_singleton.1 hf
        exact Or.inl ⟨level, q, Nat.lt_succ_self _, hpage, by rw [Nat.sub_self, region_zero]⟩
    · refine List.nodup_append.2 ⟨List.nodup_flatMap.2 ⟨fun i hi => (hg i (List.mem_range.1 hi)).2, ?_⟩,
        List.nodup_singleton _, ?_⟩
      · refine List.nodup_range.pairwise_of_forall_ne fun i hi j hj hij f hfi hfj => hij ?_
        have := ha.under_unique ((hg i (List.mem_range.1 hi)).1 f hfi) ((hg j (List.mem_range.1 hj)).1 f hfj)
        omega
      · rintro f hf _ hf' rfl
        obtain rfl := List.mem_singleton.1 hf'
        obtain ⟨i, hi, ⟨l, p, hl, hlp, -⟩ | ⟨v, hv, hfv, -⟩⟩ := hmem f hf
        · have := (ha.tables hlp hpage).1
          omega
        · exact ha.cross hv (hfv ▸ hpage)
  intro level
  induction level with
  | zero =>
    intro page q hpage
    rw [reclaimed]
    refine hjoin _ hpage fun i hi => ?_
    simp only [reclaimedAt, ho.leaf hpage i (by omega), Nat.lt_irrefl, gt_iff_lt, if_false, if_true]
    split
    · exact ⟨List.forall_mem_nil _, List.nodup_nil⟩
    · rename_i hpres
      split
      · rename_i hleaf
        refine ⟨fun f hf => ?_, List.nodup_singleton _⟩
        obtain rfl := List.mem_singleton.1 hf
        refine Or.inr ⟨q * 512 + i, ?_, rfl, region_zero _⟩
        simp only [PteFormat.live, hleaf, Bool.and_true]
        simpa using hpres
      · exact ⟨List.forall_mem_nil _, List.nodup_nil⟩
  | succ level ih =>
    intro page q hpage
    rw [reclaimed]
    refine hjoin _ hpage fun i hi => ?_
    have hread := ho.entry hpage i (by omega) fun _ => by omega
    cases hc : T level (q * 512 + i) with
    | none =>
      simp only [reclaimedAt, hread, hc, PteFormat.tableWord, hF.present_zero, Bool.not_false, if_true]
      exact ⟨List.forall_mem_nil _, List.nodup_nil⟩
    | some child =>
      have hok := ho.frameOk hc
      simp only [reclaimedAt, hread, hc, PteFormat.tableWord, hF.present_table hok, hF.not_leaf_table hok,
        hF.phys_table hok, Bool.not_true, Bool.false_eq_true, if_false, Nat.succ_pos, gt_iff_lt, if_true]
      exact ih hc

/-- Dropping a page table frees frames of its own, its tables or its pages; the others stay allocated. -/
theorem destroyTable_held (hF : F.Lawful) (hhalf : 256 ≤ half) {users : List Nat} (h : Spans F half s root R tables)
    (hpool : Pool bound s.frames (tables ++ users ++ rest) other) (hR : ∀ {v f : Nat}, R v f → f ∈ users)
    (hinj : ∀ {v w f : Nat}, R v f → R w f → v = w) (he : destroyTable F F.top root s = some s') :
    ∃ left, Pool bound s'.frames (left ++ rest) other ∧ (∀ f ∈ left, f ∈ tables ++ users) ∧ s'.mem = s.mem := by
  obtain ⟨T, W, ho, hT, hW⟩ := h
  have hnd := (List.nodup_append.1 hpool.nodup).1
  have ha : Apart F T W := by
    refine ⟨ho.inj, fun hv hw hf => hinj (hW _ hv) (hf ▸ hW _ hw), fun hv hf => ?_⟩
    exact List.disjoint_of_nodup_append hnd ((hT _).2 ⟨_, _, hf⟩) (hR (hW _ hv))
  obtain ⟨hunder, hnodup⟩ := reclaimed_under hF hhalf ho ha F.top ho.root_eq
  have hmem : ∀ f ∈ reclaimed F s.mem F.top root, f ∈ tables ++ users := by
    intro f hf
    rcases hunder f hf with ⟨l, p, -, hf, -⟩ | ⟨v, hv, rfl, -⟩
    · exact List.mem_append_left _ ((hT f).2 ⟨l, p, hf⟩)
    · exact List.mem_append_right _ (hR (hW v hv))
  have hpool' := hpool.perm ((perm_append_filter hnd hnodup hmem).symm.append_right rest)
  rw [List.append_assoc] at hpool'
  obtain ⟨s₁, he₁, hpool₁, hmem₁, -⟩ := freeAll_pool _ hpool'
  rw [destroyTable_eq F s.mem F.top root s rfl] at he
  obtain rfl : s₁ = s' := Option.some.inj (he₁.symm.trans he)
  exact ⟨_, hpool₁, fun f hf => (List.mem_filter.1 hf).1, hmem₁⟩

end Drop

end

end Koros.Mm
