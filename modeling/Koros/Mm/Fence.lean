import Koros.Mm.Held
import Koros.Mm.Space

/-!
# One address space among others, whatever its calls return

`Fenced rest s space`: beside the frames `rest` of others, every page that the hardware finds below the user address limit
is a page of `space.pages` at its own address, and the frames of these pages are the space's own. Unlike `Owns` this says
nothing about the metadata, the flags or the pages that the map has and the page table lost, so every call keeps it on
every path (`Stays`), on all architectures and over the whole range of user addresses:

- `mapZeroed_stays`, `replaceZeroed_stays`, `protectRange_stays`, `unmapRange_stays`: the changes in place;
- `empty_fenced`, `fork_fenced`, `drop_fences`: new spaces, given an empty upper half of the active root, and dropped ones.
-/
set_option autoImplicit false

namespace Koros.Mm

open Koros.Frame Koros.Mmu

/-! ## User addresses -/

/-- Entries of the root that translate user addresses. -/
def Arch.half : Arch → Nat
  | riscv64 => 256
  | x86_64 => 256
  | aarch64 => 512

theorem Arch.half_le (arch : Arch) : arch.half ≤ 512 := by cases arch <;> decide

theorem Arch.le_half (arch : Arch) : 256 ≤ arch.half := by cases arch <;> decide

theorem Arch.below_of_lt (arch : Arch) {va : Nat} (h : va < arch.userAddressLimit) :
    Below arch.format arch.half (va / pageSize) := by
  have hlim : arch.userAddressLimit = arch.half * 512 ^ arch.format.top * pageSize := by cases arch <;> decide
  rw [hlim] at h
  exact Nat.div_lt_of_lt_mul (by rw [Nat.mul_comm]; exact h)

/-! ## The map of the pages -/

/-- The pages of the map by page number. -/
def pagesOf (pages : Std.TreeMap Nat VmPage) : Pages := fun v =>
  (pages[v * pageSize]?).map fun page => (page.phys, page.flags)

/-- Page `v` has frame `f`. -/
def Maps (P : Pages) (v f : Nat) : Prop := ∃ flags, P v = some (f, flags)

/-- The keys of the map are addresses of user pages. -/
def Keyed (arch : Arch) (pages : Std.TreeMap Nat VmPage) : Prop :=
  ∀ {va : Nat} {page : VmPage}, pages[va]? = some page → va % pageSize = 0 ∧ va < arch.userAddressLimit

/-- The frames of the pages are among `own`, no frame twice. -/
structure Records (P : Pages) (own : List Nat) : Prop where
  mem : ∀ {v f : Nat}, Maps P v f → f ∈ own
  inj : ∀ {v w f : Nat}, Maps P v f → Maps P w f → v = w

section Pages

variable {arch : Arch} {pages : Std.TreeMap Nat VmPage} {P : Pages} {own : List Nat}

theorem Keyed.inside (h : Keyed arch pages) {va : Nat} {page : VmPage} (hp : pages[va]? = some page) :
    Inside arch.format arch.half va :=
  ⟨(h hp).1, arch.below_of_lt (h hp).2⟩

theorem maps_of_get (h : Keyed arch pages) {va : Nat} {page : VmPage} (hp : pages[va]? = some page) :
    Maps (pagesOf pages) (va / pageSize) page.phys := by
  refine ⟨page.flags, ?_⟩
  rw [pagesOf, (mul_pageSize_eq (h hp).1).2 rfl, hp]
  rfl

theorem get_of_maps {v f : Nat} (h : Maps (pagesOf pages) v f) : ∃ page, pages[v * pageSize]? = some page ∧ page.phys = f := by
  obtain ⟨flags, h⟩ := h
  obtain ⟨page, hp, he⟩ := Option.map_eq_some_iff.1 h
  exact ⟨page, hp, congrArg Prod.fst he⟩

theorem pagesOf_insert (pages : Std.TreeMap Nat VmPage) {va : Nat} (ha : va % pageSize = 0) (page : VmPage) :
    pagesOf (pages.insert va page) = Function.update (pagesOf pages) (va / pageSize) (some (page.phys, page.flags)) := by
  funext v
  rw [pagesOf, Std.TreeMap.getElem?_insert]
  by_cases hv : v = va / pageSize
  · rw [if_pos (Nat.compare_eq_eq.2 ((mul_pageSize_eq ha).2 hv).symm), hv, Function.update_self]
    rfl
  · rw [if_neg, Function.update_of_ne hv]
    · rfl
    · intro he
      exact hv ((mul_pageSize_eq ha).1 (Nat.compare_eq_eq.1 he).symm)

theorem pagesOf_erase (pages : Std.TreeMap Nat VmPage) {va : Nat} (ha : va % pageSize = 0) :
    pagesOf (pages.erase va) = Function.update (pagesOf pages) (va / pageSize) none := by
  funext v
  rw [pagesOf, Std.TreeMap.getElem?_erase]
  by_cases hv : v = va / pageSize
  · rw [if_pos (Nat.compare_eq_eq.2 ((mul_pageSize_eq ha).2 hv).symm), hv, Function.update_self]
    rfl
  · rw [if_neg, Function.update_of_ne hv]
    · rfl
    · intro he
      exact hv ((mul_pageSize_eq ha).1 (Nat.compare_eq_eq.1 he).symm)

theorem Keyed.insert (h : Keyed arch pages) {va : Nat} (ha : va % pageSize = 0) (hl : va < arch.userAddressLimit)
    (page : VmPage) : Keyed arch (pages.insert va page) := by
  intro w page' hw
  rw [Std.TreeMap.getElem?_insert] at hw
  split at hw
  · rename_i he
    obtain rfl := Nat.compare_eq_eq.1 he
    exact ⟨ha, hl⟩
  · exact h hw

theorem Keyed.erase (h : Keyed arch pages) (va : Nat) : Keyed arch (pages.erase va) := by
  intro w page hw
  rw [Std.TreeMap.getElem?_erase] at hw
  split at hw
  · cases hw
  · exact h hw

/-- Pages are recorded one after the other. -/
theorem insertAll_spec (flags : MappingFlags) : ∀ (l : List (Nat × Nat)) {pages : Std.TreeMap Nat VmPage},
    Keyed arch pages → (∀ x ∈ l, x.1 % pageSize = 0 ∧ x.1 < arch.userAddressLimit) →
    pagesOf (l.foldl (fun pages x => pages.insert x.1 ⟨x.2, flags⟩) pages) = setAll (pagesOf pages) (filled flags l) ∧
      Keyed arch (l.foldl (fun pages x => pages.insert x.1 ⟨x.2, flags⟩) pages)
  | [], _, h, _ => ⟨rfl, h⟩
  | x :: l, pages, h, hl => by
    obtain ⟨ha, hlim⟩ := hl x (List.mem_cons_self ..)
    obtain ⟨he, hk⟩ := insertAll_spec flags l (h.insert ha hlim ⟨x.2, flags⟩) fun y hy => hl y (List.mem_cons_of_mem _ hy)
    rw [pagesOf_insert pages ha] at he
    exact ⟨he, hk⟩

/-- Pages are taken from the map one after the other. -/
theorem eraseAll_spec : ∀ (old : List (Nat × VmPage)) {pages : Std.TreeMap Nat VmPage}, Keyed arch pages →
    (∀ x ∈ old, x.1 % pageSize = 0) →
    pagesOf (old.foldl (fun pages x => pages.erase x.1) pages) = setAll (pagesOf pages) (cleared (old.map Prod.fst)) ∧
      Keyed arch (old.foldl (fun pages x => pages.erase x.1) pages)
  | [], _, h, _ => ⟨rfl, h⟩
  | x :: old, pages, h, hl => by
    obtain ⟨he, hk⟩ := eraseAll_spec old (h.erase x.1) fun y hy => hl y (List.mem_cons_of_mem _ hy)
    rw [pagesOf_erase pages (hl x (List.mem_cons_self ..))] at he
    exact ⟨he, hk⟩

/-- The pages after new ones were recorded. -/
theorem maps_filled {flags : MappingFlags} {l : List (Nat × Nat)} (hnd : (l.map fun x => x.1 / pageSize).Nodup) {v f : Nat} :
    Maps (setAll P (filled flags l)) v f ↔ New l v f ∨ v ∉ l.map (fun x => x.1 / pageSize) ∧ Maps P v f := by
  induction l generalizing P with
  | nil => simp [setAll, filled, New]
  | cons x l ih =>
    rw [List.map_cons, List.nodup_cons] at hnd
    have he : setAll P (filled flags (x :: l)) =
        setAll (Function.update P (x.1 / pageSize) (some (x.2, flags))) (filled flags l) := rfl
    rw [he, ih hnd.2, List.map_cons, List.mem_cons, not_or]
    constructor
    · rintro (⟨y, hy, hyv⟩ | ⟨hv, a, hP⟩)
      · exact Or.inl ⟨y, List.mem_cons_of_mem _ hy, hyv⟩
      · by_cases hx : v = x.1 / pageSize
        · subst hx
          rw [Function.update_self] at hP
          cases hP
          exact Or.inl ⟨x, List.mem_cons_self .., rfl, rfl⟩
        · rw [Function.update_of_ne hx] at hP
          exact Or.inr ⟨⟨hx, hv⟩, a, hP⟩
    · rintro (⟨y, hy, hyv, hyf⟩ | ⟨⟨hx, hv⟩, a, hP⟩)
      · rcases List.mem_cons.1 hy with rfl | hy
        · refine Or.inr ⟨hyv ▸ hnd.1, flags, ?_⟩
          rw [← hyv, ← hyf, Function.update_self]
        · exact Or.inl ⟨y, hy, hyv, hyf⟩
      · exact Or.inr ⟨hv, a, by rw [Function.update_of_ne hx]; exact hP⟩

/-- The pages after some were taken away. -/
theorem maps_cleared {vas : List Nat} {v f : Nat} :
    Maps (setAll P (cleared vas)) v f ↔ v ∉ vas.map (· / pageSize) ∧ Maps P v f := by
  by_cases hv : v ∈ vas.map (· / pageSize)
  · constructor
    · rintro ⟨a, h⟩
      rw [setAll_cleared vas (Or.inr hv)] at h
      cases h
    · exact fun h => absurd hv h.1
  · rw [Maps, setAll_of_notMem (by rw [cleared_fst]; exact hv)]
    exact ⟨fun h => ⟨hv, h⟩, fun h => h.2⟩

end Pages

/-! ## Fenced address spaces -/

/-- The live words of the page table of `space` are pages of its map, and the frames of the map are its own. -/
def Fenced (arch : Arch) (bound : Nat) (other : List Extent) (rest : List Nat) (s : Memory) (space : AddressSpace) : Prop :=
  ∃ own, Records (pagesOf space.pages) own ∧ Keyed arch space.pages ∧
    Held arch.format arch.half space.root bound (Maps (pagesOf space.pages)) other (own ++ rest) s

/-- A call on a space keeps it fenced and leaves the others' frames and the active root alone. -/
structure Stays (arch : Arch) (bound : Nat) (other : List Extent) (rest : List Nat) (space : AddressSpace) (m : Machine)
    (space' : AddressSpace) (m' : Machine) : Prop where
  fenced : Fenced arch bound other rest m'.mem space'
  same : Same rest m.mem m'.mem
  root_eq : space'.root = space.root
  owned_eq : space'.owned = space.owned
  active_eq : m'.active = m.active

section Operations

variable {arch : Arch} {bound : Nat} {other : List Extent} {rest : List Nat} {space space' space'' : AddressSpace}
  {m m' m'' : Machine}

theorem Stays.refl (h : Fenced arch bound other rest m.mem space) : Stays arch bound other rest space m space m :=
  ⟨h, Same.refl _ _, rfl, rfl, rfl⟩

theorem Stays.trans (h₁ : Stays arch bound other rest space m space' m')
    (h₂ : Stays arch bound other rest space' m' space'' m'') : Stays arch bound other rest space m space'' m'' :=
  ⟨h₂.fenced, h₁.same.trans h₂.same, h₂.root_eq.trans h₁.root_eq, h₂.owned_eq.trans h₁.owned_eq,
    h₂.active_eq.trans h₁.active_eq⟩

/-- A page of the space is overwritten. -/
theorem store_stays (h : Fenced arch bound other rest m.mem space) {va : Nat} {page : VmPage}
    (hp : space.pages[va]? = some page) {s : Memory} {words : Nat → Nat}
    (hmem : s.mem = Function.update m.mem.mem page.phys words) (hfr : s.frames = m.mem.frames) :
    Stays arch bound other rest space m space { m with mem := s } := by
  obtain ⟨own, hrec, hk, hheld⟩ := h
  have hin : page.phys ∈ own := hrec.mem (maps_of_get hk hp)
  refine ⟨⟨own, hrec, hk, hheld.overwrite (List.mem_append_left _ hin) hmem hfr⟩, ?_, rfl, rfl, rfl⟩
  obtain ⟨tables, -, hpool⟩ := hheld
  refine Same.of_update (fun hr => ?_) hmem
  exact List.disjoint_of_nodup_append (List.nodup_append.1 hpool.nodup).2.1 hin hr

/-- The page that `map_zeroed` makes: a zeroed frame beside those that were there, or nothing. -/
theorem mapFresh_held (hb : bound ≤ 2 ^ 36) {R : Nat → Nat → Prop} {beside : List Nat} {root va : Nat} {s s' : Memory}
    {flags : MappingFlags} {r : Except MapError Nat} (h : Held arch.format arch.half root bound R other beside s)
    (hva : Inside arch.format arch.half va) (he : mapFresh arch.format root va flags s = some (r, s')) :
    Same beside s s' ∧
      ((∃ p, r = .ok p ∧ p ∉ beside ∧ s'.mem p = (fun _ => 0) ∧
          Held arch.format arch.half root bound (fun w f => w ≠ va / pageSize ∧ R w f ∨ w = va / pageSize ∧ f = p) other
            (p :: beside) s') ∨
        (∃ e, r = .error e) ∧ Held arch.format arch.half root bound R other beside s') := by
  obtain ⟨tables, hspans, hpool⟩ := h
  simp only [mapFresh, Option.bind_eq_bind, Option.bind_eq_some_iff] at he
  obtain ⟨⟨q, a⟩, hal, he⟩ := he
  rcases allocFrame_cases hpool hal with ⟨p, rfl, hpool₁, -⟩ | ⟨rfl, rfl, -⟩
  swap
  · cases he
    exact ⟨Same.refl _ _, Or.inr ⟨⟨_, rfl⟩, tables, hspans, hpool⟩⟩
  -- the new frame joins the frames beside the table
  have hheld : Held arch.format arch.half root bound R other (p :: beside) { s with frames := a } :=
    ⟨tables, hspans.same fun _ _ => rfl, hpool₁.perm List.perm_middle.symm⟩
  simp only [Option.bind_eq_some_iff] at he
  obtain ⟨⟨r₂, s₂⟩, he₂, he⟩ := he
  have hrest : ∀ f ∈ beside, f ∈ p :: beside := fun f hf => List.mem_cons_of_mem _ hf
  obtain ⟨hres, hs⟩ := map_held arch.lawful hb arch.half_le hheld hva (hheld.frameOk hb (List.mem_cons_self ..)) he₂
  rcases hres with ⟨rfl, h₂⟩ | ⟨⟨e, rfl⟩, h₂⟩
  · cases he
    have hpn : p ∉ beside := by
      obtain ⟨tables₂, -, hpool₂⟩ := h₂
      exact (List.nodup_cons.1 (List.nodup_append.1 hpool₂.nodup).2.1).1
    refine ⟨(hs.mono hrest).trans (Same.of_update hpn rfl), Or.inl ⟨p, rfl, hpn, Function.update_self .., ?_⟩⟩
    exact h₂.overwrite (List.mem_cons_self ..) rfl rfl
  · simp only [Option.bind_eq_some_iff] at he
    obtain ⟨a₂, hfree, he⟩ := he
    cases he
    obtain ⟨tables₂, hspans₂, hpool₂⟩ := h₂
    obtain ⟨a₃, hfree', hpool₃, -⟩ := freeFrame_pool (hpool₂.perm List.perm_middle)
    obtain rfl : a₂ = a₃ := Option.some.inj (hfree.symm.trans hfree')
    exact ⟨hs.mono hrest, Or.inr ⟨⟨_, rfl⟩, tables₂, hspans₂.same fun _ _ => rfl, hpool₃⟩⟩

/-- `map_zeroed` refuses, or calls `mapFresh` for an address that the map does not have. -/
theorem mapZeroed_cases {va : Nat} {flags : MappingFlags} {r : Except MapError Nat}
    (he : space.mapZeroed arch m va flags = some (r, space', m')) :
    (∃ e, r = .error e) ∧ space' = space ∧ m' = m ∨
      va % pageSize = 0 ∧ va < arch.userAddressLimit ∧ space.pages.contains va = false ∧
        ∃ s, mapFresh arch.format space.root va flags m.mem = some (r, s) ∧ m' = { m with mem := s } ∧
          ((∃ e, r = .error e) ∧ space' = space ∨
            ∃ p, r = .ok p ∧ space' = { space with pages := space.pages.insert va ⟨p, flags⟩ }) := by
  unfold AddressSpace.mapZeroed at he
  split at he
  · cases he
    exact Or.inl ⟨⟨_, rfl⟩, rfl, rfl⟩
  rename_i hgood
  simp only [ne_eq, ge_iff_le, not_or, not_not, Bool.not_eq_true', Bool.not_eq_false, Nat.not_le] at hgood
  split at he
  · cases he
    exact Or.inl ⟨⟨_, rfl⟩, rfl, rfl⟩
  rename_i hcon
  rw [withActive_eq] at he
  simp only [Option.bind_eq_bind, Option.bind_eq_some_iff, Option.map_eq_some_iff] at he
  obtain ⟨_, ⟨⟨r₁, s₁⟩, he₁, rfl⟩, he⟩ := he
  refine Or.inr ⟨hgood.1, hgood.2.1, Bool.eq_false_iff.2 hcon, s₁, ?_⟩
  cases r₁ with
  | error e =>
    cases he
    exact ⟨he₁, rfl, Or.inl ⟨⟨_, rfl⟩, rfl⟩⟩
  | ok p =>
    cases he
    exact ⟨he₁, rfl, Or.inr ⟨p, rfl, rfl⟩⟩

/-- `map_zeroed` adds one page or none. -/
theorem mapZeroed_stays (hb : bound ≤ 2 ^ 36) (h : Fenced arch bound other rest m.mem space) {va : Nat}
    {flags : MappingFlags} {r : Except MapError Nat} (he : space.mapZeroed arch m va flags = some (r, space', m')) :
    Stays arch bound other rest space m space' m' ∧
      ∀ p, r = .ok p → ∃ flags, space'.pages[va]? = some ⟨p, flags⟩ := by
  rcases mapZeroed_cases he with ⟨⟨e, rfl⟩, rfl, rfl⟩ | ⟨ha, hlim, hcon, s, hmap, rfl, hres⟩
  · exact ⟨Stays.refl h, nofun⟩
  obtain ⟨own, hrec, hkey, hheld⟩ := h
  obtain ⟨hs, hmapped⟩ := mapFresh_held hb hheld ⟨ha, arch.below_of_lt hlim⟩ hmap
  have hrest : Same rest m.mem s := hs.mono fun f hf => List.mem_append_right _ hf
  rcases hmapped with ⟨p, rfl, hpn, -, h₂⟩ | ⟨⟨e, rfl⟩, h₂⟩
  swap
  · obtain ⟨-, rfl⟩ | ⟨p, hp, -⟩ := hres
    · exact ⟨⟨⟨own, hrec, hkey, h₂⟩, hrest, rfl, rfl, rfl⟩, nofun⟩
    · cases hp
  obtain ⟨⟨e, he⟩, -⟩ | ⟨p', hp, rfl⟩ := hres
  · cases he
  cases hp
  refine ⟨⟨⟨p :: own, ?_, ?_, ?_⟩, hrest, rfl, rfl, rfl⟩, ?_⟩
  · show Records (pagesOf (space.pages.insert va ⟨p, flags⟩)) _
    rw [pagesOf_insert _ ha]
    have hcases : ∀ {v f : Nat}, Maps (Function.update (pagesOf space.pages) (va / pageSize) (some (p, flags))) v f →
        v = va / pageSize ∧ f = p ∨ v ≠ va / pageSize ∧ Maps (pagesOf space.pages) v f := by
      rintro v f ⟨b, hv⟩
      by_cases hvv : v = va / pageSize
      · subst hvv
        rw [Function.update_self] at hv
        cases hv
        exact Or.inl ⟨rfl, rfl⟩
      · rw [Function.update_of_ne hvv] at hv
        exact Or.inr ⟨hvv, b, hv⟩
    have hfresh : ∀ {v f : Nat}, Maps (pagesOf space.pages) v f → f ≠ p := by
      rintro v f hv rfl
      exact hpn (List.mem_append_left _ (hrec.mem hv))
    constructor
    · intro v f hv
      rcases hcases hv with ⟨-, rfl⟩ | ⟨-, hv⟩
      · exact List.mem_cons_self ..
      · exact List.mem_cons_of_mem _ (hrec.mem hv)
    · intro v w f hv hw
      rcases hcases hv with ⟨rfl, rfl⟩ | ⟨-, hv⟩ <;> rcases hcases hw with ⟨rfl, he⟩ | ⟨-, hw⟩
      · rfl
      · exact absurd rfl (hfresh hw)
      · exact absurd he (hfresh hv)
      · exact hrec.inj hv hw
  · exact hkey.insert ha hlim _
  · show Held _ _ space.root bound (Maps (pagesOf (space.pages.insert va ⟨p, flags⟩))) other _ _
    rw [pagesOf_insert _ ha]
    refine h₂.mono fun v f hv => ?_
    rcases hv with ⟨hne, b, hv⟩ | ⟨rfl, rfl⟩
    · exact ⟨b, by rw [Function.update_of_ne hne]; exact hv⟩
    · exact ⟨flags, Function.update_self ..⟩
  · intro p' hp'
    cases hp'
    exact ⟨flags, by rw [Std.TreeMap.getElem?_insert, if_pos (Nat.compare_eq_eq.2 rfl)]⟩

/-- `map_zeroed` leaves the contents of the pages of the map alone, and the new page is zero. -/
theorem mapZeroed_contents (hb : bound ≤ 2 ^ 36) (h : Fenced arch bound other rest m.mem space) {va : Nat}
    {flags : MappingFlags} {r : Except MapError Nat} (he : space.mapZeroed arch m va flags = some (r, space', m')) :
    (∀ {w : Nat} {page : VmPage}, space.pages[w]? = some page → m'.mem.mem page.phys = m.mem.mem page.phys) ∧
      ∀ p, r = .ok p → m'.mem.mem p = fun _ => 0 := by
  rcases mapZeroed_cases he with ⟨⟨e, rfl⟩, rfl, rfl⟩ | ⟨ha, hlim, -, s, hmap, rfl, -⟩
  · exact ⟨fun _ => rfl, nofun⟩
  obtain ⟨own, hrec, hkey, hheld⟩ := h
  obtain ⟨hs, hmapped⟩ := mapFresh_held hb hheld ⟨ha, arch.below_of_lt hlim⟩ hmap
  refine ⟨fun hp => hs _ (List.mem_append_left _ (hrec.mem (maps_of_get hkey hp))), fun p hp => ?_⟩
  subst hp
  obtain ⟨p', hp', -, hzero, -⟩ | ⟨⟨e, he⟩, -⟩ := hmapped
  · cases hp'
    exact hzero
  · cases he

/-- The frames of recorded pages, each once. -/
theorem Records.frames_nodup {P : Pages} {own : List Nat} (h : Records P own) : ∀ {old : List (Nat × VmPage)},
    (∀ x ∈ old, Maps P (x.1 / pageSize) x.2.phys) → (old.map fun x => x.1 / pageSize).Nodup →
    (old.map (·.2.phys)).Nodup
  | [], _, _ => List.nodup_nil
  | x :: old, hold, hk => by
    rw [List.map_cons, List.nodup_cons] at hk ⊢
    refine ⟨fun hm => ?_, h.frames_nodup (fun y hy => hold y (List.mem_cons_of_mem _ hy)) hk.2⟩
    obtain ⟨y, hy, he⟩ := List.mem_map.1 hm
    have hv := h.inj (hold x (List.mem_cons_self ..)) (he ▸ hold y (List.mem_cons_of_mem _ hy))
    exact hk.1 (hv ▸ List.mem_map_of_mem (f := fun x => x.1 / pageSize) hy)

/-- The frames of pages that are no longer recorded go back to the allocator. -/
theorem freeAll_held {F : PteFormat} {half root : Nat} {R : Nat → Nat → Prop} {own freed : List Nat} {s s' : Memory}
    (h : Held F half root bound R other (own ++ rest) s) (hnd : freed.Nodup) (hsub : ∀ f ∈ freed, f ∈ own)
    (he : freeAll freed s = some s') :
    Held F half root bound R other (own.filter (· ∉ freed) ++ rest) s' ∧ s'.mem = s.mem := by
  obtain ⟨tables, hs, hpool⟩ := h
  have hown := (List.nodup_append.1 (List.nodup_append.1 hpool.nodup).2.1).1
  have hpool' : Pool bound s.frames (freed ++ (tables ++ (own.filter (· ∉ freed) ++ rest))) other := by
    refine hpool.perm ?_
    calc List.Perm (tables ++ (own ++ rest)) (tables ++ ((freed ++ own.filter (· ∉ freed)) ++ rest)) :=
          ((perm_append_filter hown hnd hsub).symm.append_right rest).append_left tables
      List.Perm _ (freed ++ (tables ++ (own.filter (· ∉ freed) ++ rest))) := by
          rw [List.append_assoc]
          exact List.perm_append_comm_assoc ..
  obtain ⟨s₁, he₁, hpool₁, hmem, -⟩ := freeAll_pool freed hpool'
  obtain rfl : s₁ = s' := Option.some.inj (he₁.symm.trans he)
  exact ⟨⟨tables, hs.same fun f _ => by rw [hmem], hpool₁⟩, hmem⟩

/-- `unmap_range` takes pages away, or stops in the middle. -/
theorem unmapRange_stays (h : Fenced arch bound other rest m.mem space) {start length : Nat} {r : Except MapError Unit}
    (he : space.unmapRange arch m start length = some (r, space', m')) :
    Stays arch bound other rest space m space' m' := by
  unfold AddressSpace.unmapRange at he
  split at he
  · cases he
    exact Stays.refl h
  split at he
  · cases he
    exact Stays.refl h
  rename_i stop _
  obtain ⟨own, hrec, hkey, hheld⟩ := h
  simp only [withActive_eq, Option.bind_eq_bind, Option.bind_eq_some_iff, Option.map_eq_some_iff] at he
  generalize hold : (stepBy start stop).filterMap (fun va => (space.pages[va]?).map fun page => (va, page)) = old at he
  obtain ⟨_, ⟨⟨r₁, s₁⟩, he₁, rfl⟩, he⟩ := he
  have hpages : ∀ x ∈ old, space.pages[x.1]? = some x.2 := fun x hx => (mem_filterMap_pages (hold ▸ hx)).2
  have hkeys : (old.map fun x => x.1 / pageSize).Nodup := hold ▸ filterMap_stepBy_nodup space.pages start stop
  have hrest : ∀ f ∈ rest, f ∈ own ++ rest := fun f hf => List.mem_append_right _ hf
  obtain ⟨h₁, hs₁, hok⟩ := unmapAll_held arch.lawful arch.half_le (old.map Prod.fst) hheld (fun va hva => by
    obtain ⟨x, hx, rfl⟩ := List.mem_map.1 hva
    exact hkey.inside (hpages x hx)) he₁
  cases r₁ with
  | error e =>
    cases he
    exact ⟨⟨own, hrec, hkey, h₁⟩, hs₁.mono hrest, rfl, rfl, rfl⟩
  | ok _ =>
    simp only [Option.bind_eq_some_iff] at he
    obtain ⟨s₂, he₂, he⟩ := he
    cases he
    have hmaps : ∀ x ∈ old, Maps (pagesOf space.pages) (x.1 / pageSize) x.2.phys := fun x hx =>
      maps_of_get hkey (hpages x hx)
    obtain ⟨hP, hkey'⟩ := eraseAll_spec old hkey fun x hx => (hkey (hpages x hx)).1
    obtain ⟨h₂, hmem⟩ := freeAll_held (hok rfl) (hrec.frames_nodup hmaps hkeys) (fun f hf => by
      obtain ⟨x, hx, rfl⟩ := List.mem_map.1 hf
      exact hrec.mem (hmaps x hx)) he₂
    refine ⟨⟨_, ⟨?_, ?_⟩, hkey', h₂.mono ?_⟩, fun f hf => ?_, rfl, rfl, rfl⟩
    · intro v f hv
      obtain ⟨hn, hv⟩ := maps_cleared.1 (hP ▸ hv)
      refine List.mem_filter.2 ⟨hrec.mem hv, decide_eq_true fun hf => ?_⟩
      obtain ⟨x, hx, rfl⟩ := List.mem_map.1 hf
      exact hn (List.mem_map.2 ⟨x.1, List.mem_map_of_mem hx, hrec.inj (hmaps x hx) hv⟩)
    · intro v w f hv hw
      exact hrec.inj (maps_cleared.1 (hP ▸ hv)).2 (maps_cleared.1 (hP ▸ hw)).2
    · intro v f hv
      exact hP ▸ maps_cleared.2 hv
    · show s₂.mem f = _
      rw [hmem]
      exact hs₁ f (hrest f hf)

/-- `protect_range` maps the same pages again, as far as it can. -/
theorem protectRange_stays (hb : bound ≤ 2 ^ 36) (h : Fenced arch bound other rest m.mem space) {start length : Nat}
    {flags : MappingFlags} {r : Except MapError Unit}
    (he : space.protectRange arch m start length flags = some (r, space', m')) :
    Stays arch bound other rest space m space' m' := by
  unfold AddressSpace.protectRange at he
  split at he
  · cases he
    exact Stays.refl h
  split at he
  · cases he
    exact Stays.refl h
  rename_i stop _
  split at he
  · cases he
    exact Stays.refl h
  split at he
  · cases he
    exact Stays.refl h
  rename_i old hold
  obtain ⟨own, hrec, hkey, hheld⟩ := h
  obtain ⟨hfst, hpages⟩ := mapM_pages hold
  simp only [withActive_eq, Option.bind_eq_bind, Option.bind_eq_some_iff, Option.map_eq_some_iff] at he
  obtain ⟨_, ⟨⟨r₁, s₁⟩, he₁, rfl⟩, he⟩ := he
  have hkeys : (old.map fun x => x.1 / pageSize).Nodup := keys_nodup hfst
  have hmaps : ∀ x ∈ old, Maps (pagesOf space.pages) (x.1 / pageSize) x.2.phys := fun x hx => maps_of_get hkey (hpages x hx)
  have hin : ∀ x ∈ old, Inside arch.format arch.half x.1 ∧ x.2.phys ∈ own ++ rest := fun x hx =>
    ⟨hkey.inside (hpages x hx), List.mem_append_left _ (hrec.mem (hmaps x hx))⟩
  have hrest : ∀ f ∈ rest, f ∈ own ++ rest := fun f hf => List.mem_append_right _ hf
  simp only [protectPages, Option.bind_eq_bind, Option.bind_eq_some_iff] at he₁
  obtain ⟨⟨r₂, s₂⟩, he₂, he₁⟩ := he₁
  obtain ⟨h₂, hs₂, hok⟩ := unmapAll_held arch.lawful arch.half_le (old.map Prod.fst) hheld (fun va hva => by
    obtain ⟨x, hx, rfl⟩ := List.mem_map.1 hva
    exact (hin x hx).1) he₂
  cases r₂ with
  | error e =>
    cases he₁
    cases he
    exact ⟨⟨own, hrec, hkey, h₂⟩, hs₂.mono hrest, rfl, rfl, rfl⟩
  | ok _ =>
    let l := old.map fun x => (x.1, x.2.phys)
    have hl : ∀ x ∈ l, ∃ y ∈ old, y.1 = x.1 ∧ y.2.phys = x.2 := by
      intro x hx
      obtain ⟨y, hy, rfl⟩ := List.mem_map.1 hx
      exact ⟨y, hy, rfl, rfl⟩
    obtain ⟨hres, hs₁⟩ := mapAll_held arch.lawful hb arch.half_le (fun f hf => hf) hin l [] ((hok rfl).mono fun v f hv =>
      Or.inl hv) (List.forall_mem_nil _) (fun x hx => by
        obtain ⟨y, hy, h₁, h₂⟩ := hl x hx
        exact ⟨h₁ ▸ (hin y hy).1, h₂ ▸ (hin y hy).2, fun h => by cases h⟩) he₁
    have hsame := (hs₂.trans hs₁).mono hrest
    rcases hres with ⟨rfl, h₁⟩ | ⟨⟨e, rfl⟩, h₁⟩
    swap
    · cases he
      refine ⟨⟨own, hrec, hkey, h₁.mono fun v f hv => ?_⟩, hsame, rfl, rfl, rfl⟩
      rcases hv with hv | ⟨x, hx, rfl, rfl⟩
      · exact hv.2
      · exact hmaps x hx
    cases he
    have hkeys' : (l.map fun x => x.1 / pageSize).Nodup := by
      rw [List.map_map]
      exact hkeys
    obtain ⟨hP, hkey'⟩ := insertAll_spec flags l hkey fun x hx => by
      obtain ⟨y, hy, h₁, -⟩ := hl x hx
      exact h₁ ▸ hkey (hpages y hy)
    rw [List.foldl_map] at hP hkey'
    have hback : ∀ {v f : Nat}, Maps (pagesOf (old.foldl (fun pages x => pages.insert x.1 ⟨x.2.phys, flags⟩) space.pages)) v f →
        Maps (pagesOf space.pages) v f := by
      intro v f hv
      rcases (maps_filled hkeys').1 (hP ▸ hv) with ⟨x, hx, hxv, hxf⟩ | hv
      · obtain ⟨y, hy, h₁, h₂⟩ := hl x hx
        exact hxv ▸ hxf ▸ h₁ ▸ h₂ ▸ hmaps y hy
      · exact hv.2
    refine ⟨⟨own, ⟨fun hv => hrec.mem (hback hv), fun hv hw => hrec.inj (hback hv) (hback hw)⟩, hkey', h₁.mono ?_⟩,
      hsame, rfl, rfl, rfl⟩
    intro v f hv
    refine hP ▸ (maps_filled hkeys').2 ?_
    rcases hv with ⟨hn, hv⟩ | hv
    · refine Or.inr ⟨fun hm => hn ?_, hv⟩
      rw [List.map_map] at hm ⊢
      exact hm
    · exact Or.inl hv

/-- The frames that `allocFresh` holds, or none when it gave them back. -/
theorem allocFresh_held {F : PteFormat} {half root : Nat} {R : Nat → Nat → Prop} {own : List Nat} :
    ∀ (n : Nat) {fresh : List Nat} {q : Option (List Nat)} {s s' : Memory},
    Held F half root bound R other (fresh ++ own) s → allocFresh n fresh s = some (q, s') →
    s'.mem = s.mem ∧ match q with
      | none => Held F half root bound R other own s'
      | some fresh' => fresh'.length = fresh.length + n ∧ Held F half root bound R other (fresh' ++ own) s'
  | 0, fresh, q, s, s', h, he => by
    cases he
    exact ⟨rfl, rfl, h⟩
  | n + 1, fresh, q, s, s', h, he => by
    obtain ⟨tables, hs, hpool⟩ := h
    simp only [allocFresh, Option.bind_eq_bind, Option.bind_eq_some_iff] at he
    obtain ⟨⟨p, a⟩, hal, he⟩ := he
    rcases allocFrame_cases hpool hal with ⟨p', rfl, hpool', -⟩ | ⟨rfl, rfl, -⟩
    · have h₁ : Held F half root bound R other ((fresh ++ [p']) ++ own) { s with frames := a } := by
        refine ⟨tables, hs.same fun _ _ => rfl, hpool'.perm ?_⟩
        calc List.Perm (p' :: (tables ++ (fresh ++ own))) (tables ++ (p' :: (fresh ++ own))) := List.perm_middle.symm
          List.Perm _ (tables ++ (fresh ++ [p'] ++ own)) := by
            rw [List.append_assoc]
            exact List.perm_middle.symm.append_left tables
      obtain ⟨hmem, hres⟩ := allocFresh_held n h₁ he
      refine ⟨hmem, ?_⟩
      cases q with
      | none => exact hres
      | some fresh' =>
        refine ⟨?_, hres.2⟩
        have := hres.1
        rw [List.length_append, List.length_singleton] at this
        omega
    · simp only [Option.bind_eq_some_iff] at he
      obtain ⟨s₁, he₁, he⟩ := he
      cases he
      have hpool₁ := hpool.perm (List.perm_append_comm_assoc tables fresh own)
      obtain ⟨s₂, he₂, hpool₂, hmem, -⟩ := freeAll_pool fresh (s := s) hpool₁
      obtain rfl : s₂ = s' := Option.some.inj (he₂.symm.trans he₁)
      exact ⟨hmem, tables, hs.same fun f _ => by rw [hmem], hpool₂⟩

/-- The pages that replaced others, on frames of their own. -/
theorem Records.replace {P : Pages} {own fresh : List Nat} {flags : MappingFlags} {l : List (Nat × Nat)}
    {old : List (Nat × VmPage)} (h : Records P own) (hnd : (fresh ++ own).Nodup) (hkeys : (l.map fun x => x.1 / pageSize).Nodup)
    (hsnd : l.map Prod.snd = fresh) (hold : ∀ x ∈ old, Maps P (x.1 / pageSize) x.2.phys)
    (hsub : ∀ x ∈ old, x.1 / pageSize ∈ l.map fun x => x.1 / pageSize) :
    Records (setAll P (filled flags l)) ((fresh ++ own).filter (· ∉ old.map (·.2.phys))) := by
  obtain ⟨hfresh, -, hdisj⟩ := List.nodup_append.1 hnd
  have hnew : ∀ {v f : Nat}, New l v f → f ∈ fresh := by
    rintro v f ⟨x, hx, -, rfl⟩
    exact hsnd ▸ List.mem_map_of_mem hx
  constructor
  · intro v f hv
    rw [List.mem_filter, List.mem_append, decide_eq_true_iff]
    rcases (maps_filled hkeys).1 hv with hv | ⟨hn, hv⟩
    · refine ⟨Or.inl (hnew hv), fun hf => ?_⟩
      obtain ⟨x, hx, rfl⟩ := List.mem_map.1 hf
      exact hdisj _ (hnew hv) _ (h.mem (hold x hx)) rfl
    · refine ⟨Or.inr (h.mem hv), fun hf => hn ?_⟩
      obtain ⟨x, hx, rfl⟩ := List.mem_map.1 hf
      exact h.inj (hold x hx) hv ▸ hsub x hx
  · intro v w f hv hw
    rcases (maps_filled hkeys).1 hv with hv | ⟨-, hv⟩ <;> rcases (maps_filled hkeys).1 hw with hw | ⟨-, hw⟩
    · obtain ⟨x, hx, rfl, hxf⟩ := hv
      obtain ⟨y, hy, rfl, hyf⟩ := hw
      rw [List.inj_on_of_nodup_map (hsnd ▸ hfresh) hx hy (hxf.trans hyf.symm)]
    · exact absurd rfl (hdisj _ (hnew hv) _ (h.mem hw))
    · exact absurd rfl (hdisj _ (hnew hw) _ (h.mem hv))
    · exact h.inj hv hw

/-- `replace_zeroed` replaces all pages, or none as far as it can restore them; then it loses the new frames. -/
theorem replaceZeroed_stays (hb : bound ≤ 2 ^ 36) (h : Fenced arch bound other rest m.mem space) {start length : Nat}
    {flags : MappingFlags} {r : Except MapError Unit}
    (he : space.replaceZeroed arch m start length flags = some (r, space', m')) :
    Stays arch bound other rest space m space' m' := by
  unfold AddressSpace.replaceZeroed at he
  split at he
  · cases he
    exact Stays.refl h
  rename_i halign
  simp only [not_or, not_not, ne_eq] at halign
  split at he
  · cases he
    exact Stays.refl h
  rename_i stop hstop
  obtain ⟨-, rfl⟩ := checkedAdd_some hstop
  split at he
  · cases he
    exact Stays.refl h
  rename_i hlim
  simp only [gt_iff_lt, not_or, Nat.not_lt, Bool.not_eq_true', Bool.not_eq_false] at hlim
  have hstep : ∀ va ∈ stepBy start (start + length), va % pageSize = 0 ∧ va < arch.userAddressLimit := by
    intro va hva
    obtain ⟨-, h₂, h₃⟩ := mem_stepBy hva
    exact ⟨h₃ halign.1, Nat.lt_of_lt_of_le h₂ hlim.1⟩
  obtain ⟨own, hrec, hkey, hheld⟩ := h
  simp only [Option.bind_eq_bind, Option.bind_eq_some_iff] at he
  obtain ⟨⟨q, s₀⟩, hal, he⟩ := he
  obtain ⟨hmem₀, hq⟩ := allocFresh_held (length / pageSize) (List.nil_append (own ++ rest) ▸ hheld) hal
  have hs₀ : ∀ frames, Same frames m.mem s₀ := fun frames f _ => by rw [hmem₀]
  cases q with
  | none =>
    cases he
    exact ⟨⟨own, hrec, hkey, hq⟩, hs₀ _, rfl, rfl, rfl⟩
  | some fresh =>
  obtain ⟨hlen, h₀⟩ := hq
  generalize hold : (stepBy start (start + length)).filterMap
    (fun va => (space.pages[va]?).map fun page => (va, page)) = old at he
  simp only [withActive_eq, Option.bind_eq_some_iff, Option.map_eq_some_iff] at he
  obtain ⟨_, ⟨⟨r₁, s₁⟩, he₁, rfl⟩, he⟩ := he
  have hpages : ∀ x ∈ old, x.1 ∈ stepBy start (start + length) ∧ space.pages[x.1]? = some x.2 := fun x hx =>
    mem_filterMap_pages (hold ▸ hx)
  have hkeys : (old.map fun x => x.1 / pageSize).Nodup := hold ▸ filterMap_stepBy_nodup space.pages _ _
  have hmaps : ∀ x ∈ old, Maps (pagesOf space.pages) (x.1 / pageSize) x.2.phys := fun x hx =>
    maps_of_get hkey (hpages x hx).2
  have hin : ∀ x ∈ old, Inside arch.format arch.half x.1 ∧ x.2.phys ∈ fresh ++ (own ++ rest) := fun x hx =>
    ⟨hkey.inside (hpages x hx).2, List.mem_append_right _ (List.mem_append_left _ (hrec.mem (hmaps x hx)))⟩
  have hrest : ∀ f ∈ rest, f ∈ fresh ++ (own ++ rest) := fun f hf =>
    List.mem_append_right _ (List.mem_append_right _ hf)
  -- whatever goes wrong from here on, the new frames are lost
  have hlost : ∀ {s : Memory}, Held arch.format arch.half space.root bound (Maps (pagesOf space.pages)) other
      (fresh ++ (own ++ rest)) s → Fenced arch bound other rest s space := fun hs =>
    ⟨fresh ++ own, ⟨fun hv => List.mem_append_right _ (hrec.mem hv), hrec.inj⟩, hkey, by rwa [List.append_assoc]⟩
  simp only [replacePages, Option.bind_eq_bind, Option.bind_eq_some_iff] at he₁
  obtain ⟨⟨r₂, s₂⟩, he₂, he₁⟩ := he₁
  obtain ⟨h₂, hs₂, hok⟩ := unmapAll_held arch.lawful arch.half_le (old.map Prod.fst) h₀ (fun va hva => by
    obtain ⟨x, hx, rfl⟩ := List.mem_map.1 hva
    exact (hin x hx).1) he₂
  cases r₂ with
  | error e =>
    cases he₁
    cases he
    exact ⟨hlost h₂, (hs₀ _).trans (hs₂.mono hrest), rfl, rfl, rfl⟩
  | ok _ =>
  -- the new pages
  let l := (stepBy start (start + length)).zip fresh
  have hlen' : (stepBy start (start + length)).length = fresh.length := by
    rw [stepBy_length halign.2.2, hlen, List.length_nil, Nat.zero_add]
  have hlfst : l.map Prod.fst = stepBy start (start + length) := List.map_fst_zip (Nat.le_of_eq hlen')
  have hlsnd : l.map Prod.snd = fresh := List.map_snd_zip (Nat.le_of_eq hlen'.symm)
  have hlkeys : (l.map fun x => x.1 / pageSize) = (stepBy start (start + length)).map (· / pageSize) := by
    rw [← hlfst, List.map_map]
    rfl
  have hlnd : (l.map fun x => x.1 / pageSize).Nodup := hlkeys ▸ stepBy_nodup start (start + length)
  have hmemfst : ∀ x ∈ l, x.1 ∈ stepBy start (start + length) := fun x hx => hlfst ▸ List.mem_map_of_mem hx
  have hmemsnd : ∀ x ∈ l, x.2 ∈ fresh := fun x hx => hlsnd ▸ List.mem_map_of_mem hx
  have hnd : (fresh ++ (own ++ rest)).Nodup := by
    obtain ⟨tables, -, hpool⟩ := h₂
    exact (List.nodup_append.1 hpool.nodup).2.1
  simp only [Option.bind_eq_some_iff] at he₁
  obtain ⟨⟨r₃, s₃⟩, he₃, he₁⟩ := he₁
  obtain ⟨hres, hs₃⟩ := mapAll_held arch.lawful hb arch.half_le hrest hin l []
    ((hok rfl).mono fun v f hv => Or.inl hv) (List.forall_mem_nil _)
    (fun x hx => by
      refine ⟨⟨(hstep _ (hmemfst x hx)).1, arch.below_of_lt (hstep _ (hmemfst x hx)).2⟩,
        List.mem_append_left _ (hmemsnd x hx), fun _ hr => ?_⟩
      exact (List.nodup_append.1 hnd).2.2 _ (hmemsnd x hx) _ (List.mem_append_right _ hr) rfl) he₃
  have hsame := ((hs₀ rest).trans (hs₂.mono hrest)).trans hs₃
  rcases hres with ⟨rfl, h₃⟩ | ⟨⟨e, rfl⟩, h₃⟩
  swap
  · cases he₁
    cases he
    refine ⟨hlost (h₃.mono fun v f hv => ?_), hsame, rfl, rfl, rfl⟩
    rcases hv with hv | ⟨x, hx, rfl, rfl⟩
    · exact hv.2
    · exact hmaps x hx
  -- the frames of the pages that were there before are freed
  simp only [Option.bind_eq_some_iff] at he₁
  obtain ⟨s₄, he₄, he₁⟩ := he₁
  cases he₁
  cases he
  obtain ⟨hP, hkey'⟩ := insertAll_spec flags l hkey fun x hx => hstep _ (hmemfst x hx)
  have hsub : ∀ x ∈ old, x.1 / pageSize ∈ l.map fun x => x.1 / pageSize := fun x hx => by
    rw [hlkeys]
    exact List.mem_map_of_mem (hpages x hx).1
  rw [← List.append_assoc] at h₃ hnd
  obtain ⟨h₄, hmem₄⟩ := freeAll_held h₃ (hrec.frames_nodup hmaps hkeys) (fun f hf => by
    obtain ⟨x, hx, rfl⟩ := List.mem_map.1 hf
    exact List.mem_append_right _ (hrec.mem (hmaps x hx))) he₄
  refine ⟨⟨_, hP ▸ hrec.replace (List.nodup_append.1 hnd).1 hlnd hlsnd hmaps hsub, hkey', h₄.mono ?_⟩, ?_, rfl, rfl, rfl⟩
  · intro v f hv
    refine hP ▸ (maps_filled hlnd).2 ?_
    rcases hv with ⟨hn, hv⟩ | hv
    · refine Or.inr ⟨fun hm => hn ?_, hv⟩
      -- a page of the range that is recorded is one of the old ones
      rw [hlkeys] at hm
      obtain ⟨va, hva, rfl⟩ := List.mem_map.1 hm
      obtain ⟨page, hp, -⟩ := get_of_maps hv
      rw [(mul_pageSize_eq (hstep va hva).1).2 rfl] at hp
      refine List.mem_map.2 ⟨va, List.mem_map.2 ⟨(va, page), ?_, rfl⟩, rfl⟩
      rw [← hold]
      exact List.mem_filterMap.2 ⟨va, hva, by rw [hp]; rfl⟩
    · exact Or.inl hv
  · exact hsame.trans fun f _ => congrFun hmem₄ f

/-! ## New and dropped spaces -/

/-- The entries of the active root that a new root shares hold no user address space. -/
def UpperEmpty (arch : Arch) (m : Machine) : Prop := ∀ i, 256 ≤ i → i < arch.half → m.mem.mem m.active i = 0

theorem pagesOf_empty : pagesOf ∅ = fun _ => none := by
  funext v
  rw [pagesOf, Std.TreeMap.getElem?_emptyc]
  rfl

/-- A new space has no pages at all, or there is no frame for its root. -/
theorem empty_fenced (hb : bound ≤ 2 ^ 36) (hpool : Pool bound m.mem.frames rest other) (hup : UpperEmpty arch m)
    {r : Except MapError AddressSpace} (he : AddressSpace.empty m = some (r, m')) :
    Same rest m.mem m'.mem ∧ m'.active = m.active ∧
      ((∃ root, r = .ok ⟨root, true, ∅⟩ ∧ Fenced arch bound other rest m'.mem ⟨root, true, ∅⟩) ∨
        (∃ e, r = .error e) ∧ Pool bound m'.mem.frames rest other) := by
  obtain ⟨hact, q, hal, hres⟩ := empty_cases he
  rcases hres with ⟨rfl, rfl, hmem, -⟩ | ⟨root, rfl, rfl, -, hother, hentry⟩
  · obtain ⟨_, ⟨⟩, -⟩ | ⟨-, ha, -⟩ := allocFrame_cases hpool hal
    exact ⟨fun f _ => by rw [hmem], hact, Or.inr ⟨⟨_, rfl⟩, ha ▸ hpool⟩⟩
  obtain ⟨_, ⟨⟩, hpool', -⟩ | ⟨⟨⟩, -⟩ := allocFrame_cases hpool hal
  have hnew := List.nodup_cons.1 hpool'.nodup
  refine ⟨fun f hf => hother f ?_, hact, Or.inl ⟨root, rfl, [], ?_, ?_, [root],
    ⟨Tables.set (fun _ _ => none) arch.format.top 0 (some root), fun _ => 0, ?_, ?_, ?_⟩, hpool'⟩⟩
  · rintro rfl
    exact hnew.1 hf
  · rw [pagesOf_empty]
    constructor
    · rintro v f ⟨flags, h⟩
      cases h
    · rintro v w f ⟨flags, h⟩
      cases h
  · intro va page hp
    rw [Std.TreeMap.getElem?_emptyc] at hp
    cases hp
  · refine Outline.new arch.lawful.top_pos (FrameOk.of_placed hb (hpool'.placed (List.mem_cons_self ..))) fun i _ hi => ?_
    rcases hentry i with hz | ⟨h256, -, he⟩
    · exact hz
    · exact he.trans (hup i h256 hi)
  · exact Lists.root _ _
  · intro v hv
    rw [arch.lawful.live_zero] at hv
    cases hv

/-- The frames of a fenced space: its tables, the frames of its pages and those it lost. -/
def Fences (arch : Arch) (s : Memory) (space : AddressSpace) (frames : List Nat) : Prop :=
  ∃ tables own, frames = tables ++ own ∧
    Spans arch.format arch.half s space.root (Maps (pagesOf space.pages)) tables ∧
    Records (pagesOf space.pages) own ∧ Keyed arch space.pages

theorem Fences.fenced {s : Memory} {frames : List Nat} (h : Fences arch s space frames)
    (hpool : Pool bound s.frames (frames ++ rest) other) : Fenced arch bound other rest s space := by
  obtain ⟨tables, own, rfl, hs, hrec, hkey⟩ := h
  exact ⟨own, hrec, hkey, tables, hs, by rwa [List.append_assoc] at hpool⟩

theorem Fenced.exists_frames {s : Memory} (h : Fenced arch bound other rest s space) :
    ∃ frames, Fences arch s space frames ∧ Pool bound s.frames (frames ++ rest) other := by
  obtain ⟨own, hrec, hkey, tables, hs, hpool⟩ := h
  exact ⟨tables ++ own, ⟨tables, own, rfl, hs, hrec, hkey⟩, by rwa [List.append_assoc]⟩

theorem Fences.same {s s' : Memory} {frames : List Nat} (h : Fences arch s space frames) (hs : Same frames s s') :
    Fences arch s' space frames := by
  obtain ⟨tables, own, rfl, hsp, hrec, hkey⟩ := h
  exact ⟨tables, own, rfl, hsp.same (hs.mono fun f hf => List.mem_append_left _ hf), hrec, hkey⟩

theorem Fences.page_mem {s : Memory} {frames : List Nat} (h : Fences arch s space frames) {va : Nat} {page : VmPage}
    (hp : space.pages[va]? = some page) : page.phys ∈ frames := by
  obtain ⟨tables, own, rfl, -, hrec, hkey⟩ := h
  exact List.mem_append_right _ (hrec.mem (maps_of_get hkey hp))

/-- A dropped space gives back frames of its own. -/
theorem drop_fences {frames : List Nat} (h : Fences arch m.mem space frames)
    (hpool : Pool bound m.mem.frames (frames ++ rest) other) (he : space.drop arch m = some m') :
    ∃ left, Pool bound m'.mem.frames (left ++ rest) other ∧ (∀ f ∈ left, f ∈ frames) ∧ m'.mem.mem = m.mem.mem ∧
      m'.active = m.active := by
  unfold AddressSpace.drop at he
  split at he
  swap
  · cases he
    exact ⟨frames, hpool, fun f hf => hf, rfl, rfl⟩
  split at he
  · cases he
  simp only [Option.bind_eq_bind, Option.bind_eq_some_iff] at he
  obtain ⟨s, he, he'⟩ := he
  cases he'
  obtain ⟨tables, own, rfl, hs, hrec, -⟩ := h
  obtain ⟨left, hpool', hsub, hmem⟩ := destroyTable_held arch.lawful arch.le_half hs hpool (fun hv => hrec.mem hv)
    (fun hv hw => hrec.inj hv hw) he
  exact ⟨left, hpool', hsub, hmem, rfl⟩

/-- What `mapZeroed` records. -/
theorem mapZeroed_pages {va : Nat} {flags : MappingFlags} {r : Except MapError Nat}
    (he : space.mapZeroed arch m va flags = some (r, space', m')) {w : Nat} (hw : w ≠ va) :
    space'.pages[w]? = space.pages[w]? := by
  unfold AddressSpace.mapZeroed at he
  split at he
  · cases he
    rfl
  split at he
  · cases he
    rfl
  simp only [Option.bind_eq_bind, Option.bind_eq_some_iff] at he
  obtain ⟨⟨r₁, m₁⟩, -, he⟩ := he
  cases r₁ with
  | error e =>
    cases he
    rfl
  | ok p =>
    cases he
    rw [Std.TreeMap.getElem?_insert, if_neg fun hc => hw (Nat.compare_eq_eq.1 hc).symm]

/-- The loop of `fork`. The child has no page where the parent has none. -/
theorem forkPages_fenced (hb : bound ≤ 2 ^ 36) : ∀ (l : List (Nat × VmPage)) {child : AddressSpace} {m m' : Machine}
    {r : Except MapError AddressSpace}, Fenced arch bound other rest m.mem child →
    AddressSpace.forkPages arch l child m = some (r, m') →
    Same rest m.mem m'.mem ∧ m'.active = m.active ∧
      ((∃ child', r = .ok child' ∧ Fenced arch bound other rest m'.mem child' ∧
          ∀ va : Nat, va ∉ l.map Prod.fst → child'.pages[va]? = child.pages[va]?) ∨
        ∃ e left, r = .error e ∧ Pool bound m'.mem.frames (left ++ rest) other)
  | [], child, m, m', r, h, he => by
    cases he
    exact ⟨Same.refl _ _, rfl, Or.inl ⟨child, rfl, h, fun _ _ => rfl⟩⟩
  | (va, page) :: l, child, m, m', r, h, he => by
    simp only [AddressSpace.forkPages, Option.bind_eq_bind, Option.bind_eq_some_iff] at he
    obtain ⟨⟨r₁, child₁, m₁⟩, he₁, he⟩ := he
    obtain ⟨h₁, hpage⟩ := mapZeroed_stays hb h he₁
    cases r₁ with
    | error e =>
      simp only [Option.bind_eq_some_iff] at he
      obtain ⟨m₂, hdrop, he⟩ := he
      cases he
      obtain ⟨frames, hf, hpool⟩ := h₁.fenced.exists_frames
      obtain ⟨left, hpool', -, hmem, hact⟩ := drop_fences hf hpool hdrop
      exact ⟨h₁.same.trans fun f _ => congrFun hmem f, hact.trans h₁.active_eq, Or.inr ⟨e, left, rfl, hpool'⟩⟩
    | ok p =>
      obtain ⟨flags, hp⟩ := hpage p rfl
      have hcopy : Stays arch bound other rest child₁ m₁ child₁ { m₁ with mem := copyPage m₁.mem page.phys p } :=
        store_stays h₁.fenced hp rfl rfl
      obtain ⟨hs, hact, hres⟩ := forkPages_fenced hb l hcopy.fenced he
      refine ⟨(h₁.same.trans hcopy.same).trans hs, hact.trans h₁.active_eq, ?_⟩
      rcases hres with ⟨child', rfl, hf, hkeys⟩ | hres
      · refine Or.inl ⟨child', rfl, hf, fun w hw => ?_⟩
        rw [List.map_cons, List.mem_cons, not_or] at hw
        rw [hkeys w hw.2, mapZeroed_pages he₁ hw.1]
      · exact Or.inr hres

/-- `fork` makes a space beside the others, or leaves some frames behind. -/
theorem fork_fenced (hb : bound ≤ 2 ^ 36) (hpool : Pool bound m.mem.frames rest other) (hup : UpperEmpty arch m)
    {r : Except MapError AddressSpace} (he : space.fork arch m = some (r, m')) :
    Same rest m.mem m'.mem ∧ m'.active = m.active ∧
      ((∃ child, r = .ok child ∧ Fenced arch bound other rest m'.mem child ∧
          ∀ va : Nat, space.pages[va]? = none → child.pages[va]? = none) ∨
        ∃ e left, r = .error e ∧ Pool bound m'.mem.frames (left ++ rest) other) := by
  simp only [AddressSpace.fork, Option.bind_eq_bind, Option.bind_eq_some_iff] at he
  obtain ⟨⟨r₁, m₁⟩, he₁, he⟩ := he
  obtain ⟨hs₁, hact₁, ⟨root, rfl, h₁⟩ | ⟨⟨e, rfl⟩, hpool₁⟩⟩ := empty_fenced hb hpool hup he₁
  swap
  · cases he
    exact ⟨hs₁, hact₁, Or.inr ⟨e, [], rfl, hpool₁⟩⟩
  obtain ⟨hs, hact, hres⟩ := forkPages_fenced hb space.pages.toList h₁ he
  refine ⟨hs₁.trans hs, hact.trans hact₁, ?_⟩
  rcases hres with ⟨child, rfl, hf, hkeys⟩ | hres
  swap
  · exact Or.inr hres
  refine Or.inl ⟨child, rfl, hf, fun va hva => ?_⟩
  rw [hkeys va fun hm => ?_, Std.TreeMap.getElem?_emptyc]
  obtain ⟨x, hx, rfl⟩ := List.mem_map.1 hm
  rw [Std.TreeMap.mem_toList_iff_getElem?_eq_some.1 hx] at hva
  cases hva

end Operations

end Koros.Mm
