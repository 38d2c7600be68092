import Koros.Mm.Tree

/-!
# The operations of one address space

`Owns arch s space own`: the frames `own` are the page table of the space and the frames of its pages, and the page table
maps exactly the pages of `space.pages`. Every operation keeps this, beside frames `rest` of others (`Kept`):

- `mapZeroed_kept`, `replaceZeroed_kept`, `protectRange_kept`, `unmapRange_kept`: the changes in place;
- `empty_spec`, `fork_spec`: new spaces; a fork has the pages of its parent with the same contents.
-/
set_option autoImplicit false

namespace Koros.Mm

open Koros.Frame Koros.Mmu

/-! ## Frames of the pages -/

/-- `users` are the frames of the pages `P`, no frame twice. -/
structure Users (P : Pages) (users : List Nat) : Prop where
  mem_iff : ∀ f, f ∈ users ↔ ∃ v flags, P v = some (f, flags)
  inj : ∀ {v w f : Nat} {a b : MappingFlags}, P v = some (f, a) → P w = some (f, b) → v = w

namespace Users

variable {P : Pages} {users : List Nat}

theorem perm {users' : List Nat} (h : Users P users) (hp : users.Perm users') : Users P users' :=
  ⟨fun f => by rw [← hp.mem_iff, h.mem_iff], h.inj⟩

theorem fill (h : Users P users) {v f : Nat} (hP : P v = none) (hf : f ∉ users) (flags : MappingFlags) :
    Users (Function.update P v (some (f, flags))) (f :: users) := by
  have hcases : ∀ {w g : Nat} {a : MappingFlags}, Function.update P v (some (f, flags)) w = some (g, a) →
      w = v ∧ g = f ∨ w ≠ v ∧ P w = some (g, a) ∧ g ≠ f := by
    intro w g a hw
    by_cases hwv : w = v
    · subst hwv
      rw [Function.update_self] at hw
      cases hw
      exact Or.inl ⟨rfl, rfl⟩
    · rw [Function.update_of_ne hwv] at hw
      exact Or.inr ⟨hwv, hw, by rintro rfl; exact hf ((h.mem_iff _).2 ⟨w, a, hw⟩)⟩
  constructor
  · intro g
    rw [List.mem_cons, h.mem_iff]
    constructor
    · rintro (rfl | ⟨w, a, hw⟩)
      · exact ⟨v, flags, Function.update_self ..⟩
      · refine ⟨w, a, ?_⟩
        rw [Function.update_of_ne]
        · exact hw
        · rintro rfl
          rw [hP] at hw
          cases hw
    · rintro ⟨w, a, hw⟩
      rcases hcases hw with ⟨-, he⟩ | ⟨-, hw, -⟩
      · exact Or.inl he
      · exact Or.inr ⟨w, a, hw⟩
  · intro w w' g a b hw hw'
    rcases hcases hw with ⟨rfl, rfl⟩ | ⟨-, hw, hne⟩ <;> rcases hcases hw' with ⟨rfl, he⟩ | ⟨-, hw', hne'⟩
    · rfl
    · exact absurd rfl hne'
    · exact absurd he hne
    · exact h.inj hw hw'

theorem clear (h : Users P users) (hnd : users.Nodup) {v f : Nat} {flags : MappingFlags} (hP : P v = some (f, flags)) :
    Users (Function.update P v none) (users.erase f) := by
  have hcases : ∀ {w g : Nat} {a : MappingFlags}, Function.update P v none w = some (g, a) →
      w ≠ v ∧ P w = some (g, a) := by
    intro w g a hw
    by_cases hwv : w = v
    · subst hwv
      rw [Function.update_self] at hw
      cases hw
    · rw [Function.update_of_ne hwv] at hw
      exact ⟨hwv, hw⟩
  constructor
  · intro g
    rw [hnd.mem_erase_iff, h.mem_iff]
    constructor
    · rintro ⟨hne, w, a, hw⟩
      refine ⟨w, a, ?_⟩
      rw [Function.update_of_ne]
      · exact hw
      · rintro rfl
        rw [hP] at hw
        cases hw
        exact hne rfl
    · rintro ⟨w, a, hw⟩
      obtain ⟨hwv, hw⟩ := hcases hw
      refine ⟨?_, w, a, hw⟩
      rintro rfl
      exact hwv (h.inj hw hP)
  · intro w w' g a b hw hw'
    exact h.inj (hcases hw).2 (hcases hw').2

/-- The frames of the unmapped pages are set aside. -/
theorem clearAll : ∀ (old : List (Nat × VmPage)) {P : Pages} {users : List Nat}, Users P users → users.Nodup →
    (∀ x ∈ old, P (x.1 / pageSize) = some (x.2.phys, x.2.flags)) → (old.map fun x => x.1 / pageSize).Nodup →
    ∃ users', Users (setAll P (cleared (old.map Prod.fst))) users' ∧ users.Perm (old.map (·.2.phys) ++ users')
  | [], P, users, h, _, _, _ => ⟨users, h, List.Perm.refl _⟩
  | (va, page) :: old, P, users, h, hnd, hold, hk => by
    have hP := hold _ (List.mem_cons_self ..)
    rw [List.map_cons, List.nodup_cons] at hk
    have hmem : page.phys ∈ users := (h.mem_iff _).2 ⟨_, _, hP⟩
    obtain ⟨users', h', hp⟩ := clearAll old (h.clear hnd hP) (hnd.erase _) (fun x hx => by
      rw [Function.update_of_ne]
      · exact hold x (List.mem_cons_of_mem _ hx)
      · intro he
        exact hk.1 (he ▸ List.mem_map_of_mem (f := fun x => x.1 / pageSize) hx)) hk.2
    exact ⟨users', h', (List.perm_cons_erase hmem).trans (hp.cons _)⟩

/-- The frames of the new pages are added. -/
theorem fillAll (flags : MappingFlags) : ∀ (l : List (Nat × Nat)) {P : Pages} {users : List Nat}, Users P users →
    (∀ x ∈ l, P (x.1 / pageSize) = none) → (l.map fun x => x.1 / pageSize).Nodup →
    (l.map Prod.snd ++ users).Nodup → Users (setAll P (filled flags l)) (l.map Prod.snd ++ users)
  | [], P, users, h, _, _, _ => h
  | (va, phys) :: l, P, users, h, hl, hk, hnd => by
    rw [List.map_cons, List.nodup_cons] at hk
    rw [List.map_cons, List.cons_append, List.nodup_cons, List.mem_append, not_or] at hnd
    have hnd' : (l.map Prod.snd ++ phys :: users).Nodup := by
      rw [List.perm_middle.nodup_iff, List.nodup_cons, List.mem_append, not_or]
      exact hnd
    have h' := fillAll flags l (h.fill (hl _ (List.mem_cons_self ..)) hnd.1.2 flags) (fun x hx => by
      rw [Function.update_of_ne]
      · exact hl x (List.mem_cons_of_mem _ hx)
      · intro he
        exact hk.1 (he ▸ List.mem_map_of_mem (f := fun x => x.1 / pageSize) hx)) hk.2 hnd'
    exact h'.perm List.perm_middle

end Users

/-! ## The map of the pages -/

/-- A page that user code may have. -/
structure PageOk (arch : Arch) (E : Nat → Prop) (va : Nat) (flags : MappingFlags) : Prop where
  user : UserPage arch.format E va
  limit : va < arch.userAddressLimit
  u : flags.u = true
  encodes : arch.format.encodes flags = true

/-- The map `pages` and the page table's pages `P` agree. -/
structure Reflects (arch : Arch) (E : Nat → Prop) (pages : Std.TreeMap Nat VmPage) (P : Pages) : Prop where
  lookup : ∀ v, P v = (pages[v * pageSize]?).map fun page => (page.phys, page.flags)
  ok : ∀ {va : Nat} {page : VmPage}, pages[va]? = some page → PageOk arch E va page.flags

theorem mul_pageSize_eq {va v : Nat} (h : va % pageSize = 0) : v * pageSize = va ↔ v = va / pageSize := by
  unfold pageSize at *
  omega

namespace Reflects

variable {arch : Arch} {E : Nat → Prop} {pages : Std.TreeMap Nat VmPage} {P : Pages}

theorem get (h : Reflects arch E pages P) {va : Nat} (ha : va % pageSize = 0) :
    P (va / pageSize) = (pages[va]?).map fun page => (page.phys, page.flags) := by
  rw [h.lookup, (mul_pageSize_eq ha).2 rfl]

theorem get_some (h : Reflects arch E pages P) {va : Nat} {page : VmPage} (hp : pages[va]? = some page) :
    P (va / pageSize) = some (page.phys, page.flags) := by
  rw [h.get (h.ok hp).user.1, hp]
  rfl

theorem insert (h : Reflects arch E pages P) {va phys : Nat} {flags : MappingFlags} (hok : PageOk arch E va flags) :
    Reflects arch E (pages.insert va ⟨phys, flags⟩) (Function.update P (va / pageSize) (some (phys, flags))) := by
  constructor
  · intro v
    rw [Std.TreeMap.getElem?_insert]
    by_cases hv : v = va / pageSize
    · rw [if_pos (Nat.compare_eq_eq.2 ((mul_pageSize_eq hok.user.1).2 hv).symm), hv, Function.update_self]
      rfl
    · rw [if_neg, Function.update_of_ne hv, h.lookup]
      intro he
      exact hv ((mul_pageSize_eq hok.user.1).1 (Nat.compare_eq_eq.1 he).symm)
  · intro w page hw
    rw [Std.TreeMap.getElem?_insert] at hw
    split at hw
    · rename_i he
      obtain rfl := Nat.compare_eq_eq.1 he
      cases hw
      exact hok
    · exact h.ok hw

theorem erase (h : Reflects arch E pages P) {va : Nat} (ha : va % pageSize = 0) :
    Reflects arch E (pages.erase va) (Function.update P (va / pageSize) none) := by
  constructor
  · intro v
    rw [Std.TreeMap.getElem?_erase]
    by_cases hv : v = va / pageSize
    · rw [if_pos (Nat.compare_eq_eq.2 ((mul_pageSize_eq ha).2 hv).symm), hv, Function.update_self]
      rfl
    · rw [if_neg, Function.update_of_ne hv, h.lookup]
      intro he
      exact hv ((mul_pageSize_eq ha).1 (Nat.compare_eq_eq.1 he).symm)
  · intro w page hw
    rw [Std.TreeMap.getElem?_erase] at hw
    split at hw
    · cases hw
    · exact h.ok hw

theorem insertAll (flags : MappingFlags) : ∀ (l : List (Nat × Nat)) {pages : Std.TreeMap Nat VmPage} {P : Pages},
    Reflects arch E pages P → (∀ x ∈ l, PageOk arch E x.1 flags) →
    Reflects arch E (l.foldl (fun pages x => pages.insert x.1 ⟨x.2, flags⟩) pages) (setAll P (filled flags l))
  | [], _, _, h, _ => h
  | x :: l, _, _, h, hl =>
    insertAll flags l (h.insert (hl x (List.mem_cons_self ..))) fun y hy => hl y (List.mem_cons_of_mem _ hy)

theorem eraseAll : ∀ (old : List (Nat × VmPage)) {pages : Std.TreeMap Nat VmPage} {P : Pages}, Reflects arch E pages P →
    (∀ x ∈ old, x.1 % pageSize = 0) →
    Reflects arch E (old.foldl (fun pages x => pages.erase x.1) pages) (setAll P (cleared (old.map Prod.fst)))
  | [], _, _, h, _ => h
  | x :: old, _, _, h, hl =>
    eraseAll old (h.erase (hl x (List.mem_cons_self ..))) fun y hy => hl y (List.mem_cons_of_mem _ hy)

end Reflects

/-! ## One address space -/

theorem Arch.lawful : ∀ arch : Arch, arch.format.Lawful
  | .riscv64 => riscv64_lawful
  | .x86_64 => x86_64_lawful
  | .aarch64 => aarch64_lawful

/-- The frames `own` are the page table and the pages of `space`, and its page table maps the pages of its map. -/
def Owns (arch : Arch) (s : Memory) (space : AddressSpace) (own : List Nat) : Prop :=
  ∃ P tables users, own = tables ++ users ∧ Tree arch.format s space.root P tables ∧ Users P users ∧
    Reflects arch lowerHalf space.pages P

/-- A call left the space `space'` with its frames, and the frames `rest` of others as they were. -/
def Kept (arch : Arch) (bound : Nat) (other : List Extent) (rest : List Nat) (s : Memory) (space' : AddressSpace)
    (s' : Memory) : Prop :=
  ∃ own, Owns arch s' space' own ∧ Pool bound s'.frames (own ++ rest) other ∧ Keeps rest s s'

theorem withActive_eq {α : Type} (space : AddressSpace) (m : Machine) (f : Nat → Memory → Option (α × Memory)) :
    space.withActive m f = (f space.root m.mem).map fun x => (x.1, { m with mem := x.2 }) := by
  unfold AddressSpace.withActive
  by_cases h : m.active = space.root
  · cases hf : f space.root m.mem <;> simp [h, hf]
  · cases hf : f space.root m.mem <;> simp [h, hf]

section StepBy

variable {start stop va : Nat}

theorem mem_stepBy (h : va ∈ stepBy start stop) : start ≤ va ∧ va < stop ∧ (start % pageSize = 0 → va % pageSize = 0) := by
  obtain ⟨i, hi, rfl⟩ := List.mem_map.1 h
  have hi := List.mem_range.1 hi
  unfold pageSize at *
  omega

theorem stepBy_nodup (start stop : Nat) : ((stepBy start stop).map (· / pageSize)).Nodup := by
  unfold stepBy
  rw [List.map_map]
  refine List.Nodup.map (fun i j hij => ?_) List.nodup_range
  have hij : (start + i * pageSize) / pageSize = (start + j * pageSize) / pageSize := hij
  unfold pageSize at hij
  omega

theorem keys_nodup {α : Type} {l : List (Nat × α)} {start stop : Nat} (h : l.map Prod.fst = stepBy start stop) :
    (l.map fun x => x.1 / pageSize).Nodup := by
  have := stepBy_nodup start stop
  rw [← h, List.map_map] at this
  exact this

/-- Selected addresses are as distinct as all of them. -/
theorem filterMap_stepBy_nodup (pages : Std.TreeMap Nat VmPage) (start stop : Nat) :
    (((stepBy start stop).filterMap fun va => (pages[va]?).map fun page => (va, page)).map
      fun x => x.1 / pageSize).Nodup := by
  refine List.Nodup.sublist ?_ (stepBy_nodup start stop)
  generalize stepBy start stop = l
  induction l with
  | nil => exact List.Sublist.refl _
  | cons va l ih =>
    cases hp : pages[va]? with
    | none =>
      rw [List.filterMap_cons_none (by rw [hp]; rfl), List.map_cons]
      exact ih.cons _
    | some page =>
      rw [List.filterMap_cons_some (b := (va, page)) (by rw [hp]; rfl), List.map_cons, List.map_cons]
      exact ih.cons_cons _

theorem mem_filterMap_pages {pages : Std.TreeMap Nat VmPage} {l : List Nat} {x : Nat × VmPage}
    (h : x ∈ l.filterMap fun va => (pages[va]?).map fun page => (va, page)) : x.1 ∈ l ∧ pages[x.1]? = some x.2 := by
  obtain ⟨va, hva, he⟩ := List.mem_filterMap.1 h
  obtain ⟨page, hp, rfl⟩ := Option.map_eq_some_iff.1 he
  exact ⟨hva, hp⟩

end StepBy

section Operations

variable {arch : Arch} {bound : Nat} {other : List Extent} {rest own : List Nat} {space space' : AddressSpace}
  {m m' : Machine}

theorem Kept.refl (h : Owns arch m.mem space own) (hpool : Pool bound m.mem.frames (own ++ rest) other) :
    Kept arch bound other rest m.mem space m.mem :=
  ⟨own, h, hpool, Keeps.refl _ _⟩

theorem mapFresh_tree {F : PteFormat} {s s' : Memory} {root va : Nat} {P : Pages} {tables : List Nat} (hF : F.Lawful)
    (hb : bound ≤ 2 ^ 36) (h : Tree F s root P tables) (hpool : Pool bound s.frames (tables ++ rest) other)
    (hu : UserPage F lowerHalf va) {flags : MappingFlags} (henc : F.encodes flags) (hP : P (va / pageSize) = none)
    {r : Except MapError Nat} (he : mapFresh F root va flags s = some (r, s')) (hr : r ≠ .error .outOfMemory) :
    ∃ p tables', r = .ok p ∧ Tree F s' root (Function.update P (va / pageSize) (some (p, flags))) tables' ∧
      Pool bound s'.frames (tables' ++ p :: rest) other ∧ Keeps rest s s' := by
  simp only [mapFresh, Option.bind_eq_bind, Option.bind_eq_some_iff] at he
  obtain ⟨⟨q, a⟩, hal, he⟩ := he
  rcases allocFrame_cases hpool hal with ⟨p, rfl, hpool₁, -⟩ | ⟨rfl, rfl, -⟩
  swap
  · cases he
    exact absurd rfl hr
  have hpool₁ : Pool bound a (tables ++ p :: rest) other := hpool₁.perm List.perm_middle.symm
  have hphys := FrameOk.of_placed hb (hpool₁.placed (p := p) (by simp))
  simp only [Option.bind_eq_some_iff] at he
  obtain ⟨⟨r₁, s₁⟩, he₁, he⟩ := he
  have hr₁ : r₁ ≠ .error .outOfMemory := by
    rintro rfl
    simp only [Option.bind_eq_some_iff] at he
    obtain ⟨_, _, he⟩ := he
    cases he
    exact hr rfl
  have h₁ : Tree F { s with frames := a } root P tables := h.keeps fun _ _ => ⟨rfl, rfl⟩
  obtain ⟨rfl, tables₁, h₂, hpool₂, hk⟩ := map_tree hF hb h₁ hpool₁ hu.1 hu.2 hphys henc hP he₁ hr₁
  cases he
  have hnd := List.nodup_append.1 hpool₂.nodup
  refine ⟨p, tables₁, rfl, h₂.keeps ?_, hpool₂, ?_⟩
  · exact Keeps.of_update (fun hp => hnd.2.2 _ hp _ (List.mem_cons_self ..) rfl) rfl rfl
  · refine (hk.mono fun f hf => List.mem_cons_of_mem _ hf).trans ?_
    exact Keeps.of_update (List.nodup_cons.1 hnd.2.1).1 rfl rfl

/-- `map_zeroed` refuses a page, or maps a new frame. -/
theorem mapZeroed_spec (hb : bound ≤ 2 ^ 36) {P : Pages} {tables users : List Nat}
    (h : Tree arch.format m.mem space.root P tables) (hu : Users P users) (hp : Reflects arch lowerHalf space.pages P)
    (hpool : Pool bound m.mem.frames (tables ++ users ++ rest) other) {va : Nat} {flags : MappingFlags}
    (hlow : Own arch.format lowerHalf (va / pageSize)) (henc : arch.format.encodes flags) {r : Except MapError Nat}
    (he : space.mapZeroed arch m va flags = some (r, space', m')) (hr : r ≠ .error .outOfMemory) :
    (r = .error .blockedByExistingMapping ∧ space' = space ∧ m' = m ∧
        ¬ (PageOk arch lowerHalf va flags ∧ space.pages[va]? = none)) ∨
      ∃ p tables', r = .ok p ∧ space' = { space with pages := space.pages.insert va ⟨p, flags⟩ } ∧
        Tree arch.format m'.mem space.root (Function.update P (va / pageSize) (some (p, flags))) tables' ∧
        Users (Function.update P (va / pageSize) (some (p, flags))) (p :: users) ∧
        Reflects arch lowerHalf space'.pages (Function.update P (va / pageSize) (some (p, flags))) ∧
        Pool bound m'.mem.frames (tables' ++ (p :: users) ++ rest) other ∧ Keeps (users ++ rest) m.mem m'.mem := by
  unfold AddressSpace.mapZeroed at he
  split at he
  · rename_i hbad
    cases he
    refine Or.inl ⟨rfl, rfl, rfl, fun hok => ?_⟩
    rcases hbad with hbad | hbad | hbad
    · exact hbad hok.1.user.1
    · exact absurd hok.1.limit (Nat.not_lt.2 hbad)
    · simp [hok.1.u] at hbad
  rename_i hgood
  simp only [ne_eq, ge_iff_le, not_or, not_not, Bool.not_eq_true', Bool.not_eq_false, Nat.not_le] at hgood
  have hok : PageOk arch lowerHalf va flags := ⟨⟨hgood.1, hlow⟩, hgood.2.1, hgood.2.2, henc⟩
  split at he
  · rename_i hcon
    cases he
    refine Or.inl ⟨rfl, rfl, rfl, fun hno => ?_⟩
    rw [Std.TreeMap.contains_eq_isSome_getElem?, hno.2] at hcon
    cases hcon
  rename_i hcon
  have hnone : space.pages[va]? = none := by
    rw [Std.TreeMap.contains_eq_isSome_getElem?] at hcon
    simpa using hcon
  have hP : P (va / pageSize) = none := by rw [hp.get hgood.1, hnone]; rfl
  rw [withActive_eq] at he
  simp only [Option.bind_eq_bind, Option.bind_eq_some_iff, Option.map_eq_some_iff] at he
  obtain ⟨_, ⟨⟨r₁, s₁⟩, he₁, rfl⟩, he⟩ := he
  have hr₁ : r₁ ≠ .error .outOfMemory := by
    rintro rfl
    cases he
    exact hr rfl
  obtain ⟨p, tables', rfl, h', hpool', hk⟩ := mapFresh_tree arch.lawful hb h
    (by rw [← List.append_assoc]; exact hpool) hok.user henc hP he₁ hr₁
  cases he
  have hnot : p ∉ users := by
    intro hm
    have := (List.nodup_append.1 hpool'.nodup).2.1
    rw [List.nodup_cons] at this
    exact this.1 (List.mem_append_left _ hm)
  refine Or.inr ⟨p, tables', rfl, rfl, h', hu.fill hP hnot flags, hp.insert hok, ?_, hk⟩
  rw [List.append_assoc]
  exact hpool'

theorem mapZeroed_kept (hb : bound ≤ 2 ^ 36) (h : Owns arch m.mem space own)
    (hpool : Pool bound m.mem.frames (own ++ rest) other) {va : Nat} {flags : MappingFlags}
    (hlow : Own arch.format lowerHalf (va / pageSize)) (henc : arch.format.encodes flags) {r : Except MapError Nat}
    (he : space.mapZeroed arch m va flags = some (r, space', m')) (hr : r ≠ .error .outOfMemory) :
    Kept arch bound other rest m.mem space' m'.mem := by
  have hown := h
  obtain ⟨P, tables, users, rfl, ht, hu, hp⟩ := h
  rcases mapZeroed_spec hb ht hu hp hpool hlow henc he hr with
    ⟨-, rfl, rfl, -⟩ | ⟨p, tables', -, rfl, ht', hu', hp', hpool', hk⟩
  · exact Kept.refl hown hpool
  · exact ⟨_, ⟨_, tables', p :: users, rfl, ht', hu', hp'⟩, hpool', hk.mono fun f hf => List.mem_append_right _ hf⟩

theorem unmapRange_kept (h : Owns arch m.mem space own) (hpool : Pool bound m.mem.frames (own ++ rest) other)
    {start length : Nat} {r : Except MapError Unit} (he : space.unmapRange arch m start length = some (r, space', m')) :
    Kept arch bound other rest m.mem space' m'.mem := by
  have hown := h
  obtain ⟨P, tables, users, rfl, ht, hu, hp⟩ := h
  unfold AddressSpace.unmapRange at he
  split at he
  · cases he
    exact Kept.refl hown hpool
  split at he
  · cases he
    exact Kept.refl hown hpool
  rename_i stop _
  simp only [withActive_eq, Option.bind_eq_bind, Option.bind_eq_some_iff, Option.map_eq_some_iff] at he
  generalize hold : (stepBy start stop).filterMap (fun va => (space.pages[va]?).map fun page => (va, page)) = old at he
  obtain ⟨_, ⟨⟨r₁, s₁⟩, he₁, rfl⟩, he⟩ := he
  have hpages : ∀ x ∈ old, space.pages[x.1]? = some x.2 := fun x hx => (mem_filterMap_pages (hold ▸ hx)).2
  have hkeys : (old.map fun x => x.1 / pageSize).Nodup := hold ▸ filterMap_stepBy_nodup space.pages start stop
  have hmap : ∀ x ∈ old, P (x.1 / pageSize) = some (x.2.phys, x.2.flags) := fun x hx => hp.get_some (hpages x hx)
  have hnd := hpool.nodup
  rw [List.append_assoc] at hpool hnd
  obtain ⟨rfl, tables₁, ht₁, hpool₁, hk₁⟩ := unmapAll_tree arch.lawful (old.map Prod.fst) ht hpool
    (fun va hva => by
      obtain ⟨x, hx, rfl⟩ := List.mem_map.1 hva
      exact ⟨(hp.ok (hpages x hx)).user, by rw [hmap x hx]; simp⟩)
    (by rw [List.map_map]; exact hkeys) he₁
  obtain ⟨users', hu', hperm⟩ := hu.clearAll old (List.nodup_append.1 (List.nodup_append.1 hnd).2.1).1 hmap hkeys
  -- the frames that were unmapped come first, for `freeAll`
  have hpool₂ : Pool bound s₁.frames (old.map (·.2.phys) ++ (tables₁ ++ users' ++ rest)) other := by
    refine hpool₁.perm ?_
    calc List.Perm (tables₁ ++ (users ++ rest)) (tables₁ ++ ((old.map (·.2.phys) ++ users') ++ rest)) :=
          (hperm.append_right rest).append_left tables₁
      List.Perm _ (old.map (·.2.phys) ++ (tables₁ ++ users' ++ rest)) := by
          simp only [List.append_assoc]
          exact List.perm_append_comm_assoc ..
  obtain ⟨s₂, he₂, hpool₃, hmem, hmeta⟩ := freeAll_pool (old.map (·.2.phys)) hpool₂
  simp only [Option.bind_eq_some_iff] at he
  obtain ⟨s₃, he₃, he⟩ := he
  obtain rfl : s₂ = s₃ := Option.some.inj (he₂.symm.trans he₃)
  cases he
  have hk₂ : ∀ frames, Keeps frames s₁ s₂ := fun frames f _ => by rw [hmem, hmeta]; exact ⟨rfl, rfl⟩
  refine ⟨tables₁ ++ users', ⟨_, tables₁, users', rfl, ht₁.keeps (hk₂ _), hu', ?_⟩, hpool₃, ?_⟩
  · exact hp.eraseAll old fun x hx => (hp.ok (hpages x hx)).user.1
  · exact (hk₁.mono fun f hf => List.mem_append_right _ hf).trans (hk₂ _)

theorem mapM_pages {pages : Std.TreeMap Nat VmPage} : ∀ {l : List Nat} {old : List (Nat × VmPage)},
    (l.mapM fun va => (pages[va]?).map fun page => (va, page)) = some old →
    old.map Prod.fst = l ∧ ∀ x ∈ old, pages[x.1]? = some x.2
  | [], old, h => by
    cases h
    exact ⟨rfl, nofun⟩
  | va :: l, old, h => by
    simp only [List.mapM_cons, Option.bind_eq_bind, Option.bind_eq_some_iff, Option.map_eq_some_iff] at h
    obtain ⟨_, ⟨page, hpage, rfl⟩, old', h', he⟩ := h
    cases he
    obtain ⟨hfst, hall⟩ := mapM_pages h'
    refine ⟨by rw [List.map_cons, hfst], fun x hx => ?_⟩
    rcases List.mem_cons.1 hx with rfl | hx
    · exact hpage
    · exact hall x hx

/-- The frames of the pages are the same when pages are unmapped and mapped again. -/
theorem Users.refill {P : Pages} {users : List Nat} (hu : Users P users) (flags : MappingFlags) (husers : users.Nodup)
    {old : List (Nat × VmPage)} (hmap : ∀ x ∈ old, P (x.1 / pageSize) = some (x.2.phys, x.2.flags))
    (hkeys : (old.map fun x => x.1 / pageSize).Nodup) : (old.map (·.2.phys)).Nodup ∧
      Users (setAll P (filled flags (old.map fun x => (x.1, x.2.phys)))) users := by
  let l := old.map fun x => (x.1, x.2.phys)
  obtain ⟨users', hu', hperm⟩ := hu.clearAll old husers hmap hkeys
  have hnd := hperm.nodup_iff.1 husers
  have hlkeys : l.map (fun x => x.1 / pageSize) = old.map fun x => x.1 / pageSize := by
    rw [List.map_map]
    rfl
  have hlsnd : l.map Prod.snd = old.map (·.2.phys) := by
    rw [List.map_map]
    rfl
  have hin : ∀ x ∈ old, x.1 / pageSize ∈ l.map fun x => x.1 / pageSize := fun x hx => by
    rw [hlkeys]
    exact List.mem_map_of_mem (f := fun x => x.1 / pageSize) hx
  refine ⟨(List.nodup_append.1 hnd).1, ?_⟩
  have hfill := hu'.fillAll flags l (fun x hx => ?_) (by rw [hlkeys]; exact hkeys) (by rw [hlsnd]; exact hnd)
  · rw [setAll_cleared_filled fun va hva => ?_, hlsnd] at hfill
    · exact hfill.perm hperm.symm
    · obtain ⟨x, hx, rfl⟩ := List.mem_map.1 hva
      exact hin x hx
  · obtain ⟨y, hy, rfl⟩ := List.mem_map.1 hx
    refine setAll_cleared _ (Or.inr ?_)
    rw [List.map_map]
    exact List.mem_map_of_mem (f := fun x => x.1 / pageSize) hy

theorem protectRange_kept (hb : bound ≤ 2 ^ 36) (h : Owns arch m.mem space own)
    (hpool : Pool bound m.mem.frames (own ++ rest) other) {start length : Nat} {flags : MappingFlags}
    (henc : arch.format.encodes flags) {r : Except MapError Unit}
    (he : space.protectRange arch m start length flags = some (r, space', m')) (hr : r ≠ .error .outOfMemory) :
    Kept arch bound other rest m.mem space' m'.mem := by
  have hown := h
  obtain ⟨P, tables, users, rfl, ht, hu, hp⟩ := h
  unfold AddressSpace.protectRange at he
  split at he
  · cases he
    exact Kept.refl hown hpool
  rename_i hgood
  split at he
  · cases he
    exact Kept.refl hown hpool
  rename_i stop _
  split at he
  · cases he
    exact Kept.refl hown hpool
  split at he
  · cases he
    exact Kept.refl hown hpool
  rename_i old hold
  obtain ⟨hfst, hpages⟩ := mapM_pages hold
  simp only [withActive_eq, Option.bind_eq_bind, Option.bind_eq_some_iff, Option.map_eq_some_iff] at he
  obtain ⟨_, ⟨⟨r₁, s₁⟩, he₁, rfl⟩, he⟩ := he
  have hr₁ : r₁ ≠ .error .outOfMemory := by
    rintro rfl
    cases he
    exact hr rfl
  have hkeys : (old.map fun x => x.1 / pageSize).Nodup := keys_nodup hfst
  have hmap : ∀ x ∈ old, P (x.1 / pageSize) = some (x.2.phys, x.2.flags) := fun x hx => hp.get_some (hpages x hx)
  have hnd := hpool.nodup
  rw [List.append_assoc] at hpool hnd
  simp only [protectPages, Option.bind_eq_bind, Option.bind_eq_some_iff] at he₁
  obtain ⟨⟨r₂, s₂⟩, he₂, he₁⟩ := he₁
  obtain ⟨rfl, tables₂, ht₂, hpool₂, hk₂⟩ := unmapAll_tree arch.lawful (old.map Prod.fst) ht hpool
    (fun va hva => by
      obtain ⟨x, hx, rfl⟩ := List.mem_map.1 hva
      exact ⟨(hp.ok (hpages x hx)).user, by rw [hmap x hx]; simp⟩)
    (by rw [List.map_map]; exact hkeys) he₂
  have hunmapped : ∀ x ∈ old, setAll P (cleared (old.map Prod.fst)) (x.1 / pageSize) = none := fun x hx => by
    refine setAll_cleared _ (Or.inr ?_)
    rw [List.map_map]
    exact List.mem_map_of_mem (f := fun x => x.1 / pageSize) hx
  let l := old.map fun x => (x.1, x.2.phys)
  have hlkeys : (l.map fun x => x.1 / pageSize).Nodup := by
    rw [List.map_map]
    exact hkeys
  have hl : ∀ x ∈ l, UserPage arch.format lowerHalf x.1 ∧
      setAll P (cleared (old.map Prod.fst)) (x.1 / pageSize) = none ∧ x.2 ∈ users ++ rest ∧
      (false = true → x.2 ∉ users ++ rest) := by
    intro x hx
    obtain ⟨y, hy, rfl⟩ := List.mem_map.1 hx
    refine ⟨(hp.ok (hpages y hy)).user, hunmapped y hy, List.mem_append_left _ ?_, nofun⟩
    exact (hu.mem_iff _).2 ⟨_, _, hmap y hy⟩
  obtain ⟨rfl, tables₃, ht₃, hpool₃, hk₃⟩ := mapAll_tree arch.lawful hb henc (fun f hf => hf) l
    ht₂ hpool₂ hl hlkeys he₁ hr₁
  cases he
  have hpages' : setAll (setAll P (cleared (old.map Prod.fst))) (filled flags l) = setAll P (filled flags l) := by
    refine setAll_cleared_filled fun va hva => ?_
    obtain ⟨x, hx, rfl⟩ := List.mem_map.1 hva
    exact List.mem_map.2 ⟨_, List.mem_map_of_mem hx, rfl⟩
  have hu₃ : Users (setAll P (filled flags l)) users :=
    (hu.refill flags (List.nodup_append.1 (List.nodup_append.1 hnd).2.1).1 hmap hkeys).2
  rw [hpages'] at ht₃
  refine ⟨tables₃ ++ users, ⟨_, tables₃, users, rfl, ht₃, hu₃, ?_⟩, ?_, ?_⟩
  · have := hp.insertAll flags l fun x hx => by
      obtain ⟨y, hy, rfl⟩ := List.mem_map.1 hx
      have hok := hp.ok (hpages y hy)
      simp only [not_or, Bool.not_eq_true', Bool.not_eq_false] at hgood
      exact ⟨hok.user, hok.limit, hgood.2.2.2, henc⟩
    rw [List.foldl_map] at this
    exact this
  · rw [List.append_assoc]
    exact hpool₃
  · exact (hk₂.trans hk₃).mono fun f hf => List.mem_append_right _ hf

theorem stepBy_length {start length : Nat} (hl : length % pageSize = 0) :
    (stepBy start (start + length)).length = length / pageSize := by
  rw [stepBy, List.length_map, List.length_range]
  unfold pageSize at *
  omega

theorem replaceZeroed_kept (hb : bound ≤ 2 ^ 36) (h : Owns arch m.mem space own)
    (hpool : Pool bound m.mem.frames (own ++ rest) other) {start length : Nat} {flags : MappingFlags}
    (hlow : ∀ va, start ≤ va → va < start + length → Own arch.format lowerHalf (va / pageSize)) (henc : arch.format.encodes flags)
    {r : Except MapError Unit} (he : space.replaceZeroed arch m start length flags = some (r, space', m'))
    (hr : r ≠ .error .outOfMemory) : Kept arch bound other rest m.mem space' m'.mem := by
  have hown := h
  obtain ⟨P, tables, users, rfl, ht, hu, hp⟩ := h
  unfold AddressSpace.replaceZeroed at he
  split at he
  · cases he
    exact Kept.refl hown hpool
  rename_i halign
  simp only [not_or, not_not, ne_eq] at halign
  split at he
  · cases he
    exact Kept.refl hown hpool
  rename_i stop hstop
  obtain ⟨-, rfl⟩ := checkedAdd_some hstop
  split at he
  · cases he
    exact Kept.refl hown hpool
  rename_i hlim
  simp only [gt_iff_lt, not_or, Nat.not_lt, Bool.not_eq_true', Bool.not_eq_false] at hlim
  have hok : ∀ va ∈ stepBy start (start + length), PageOk arch lowerHalf va flags := by
    intro va hva
    obtain ⟨h₁, h₂, h₃⟩ := mem_stepBy hva
    exact ⟨⟨h₃ halign.1, hlow va h₁ h₂⟩, Nat.lt_of_lt_of_le h₂ hlim.1, hlim.2, henc⟩
  simp only [Option.bind_eq_bind, Option.bind_eq_some_iff] at he
  obtain ⟨⟨q, s₀⟩, hal, he⟩ := he
  cases q with
  | none =>
    cases he
    exact absurd rfl hr
  | some fresh =>
  generalize hold : (stepBy start (start + length)).filterMap
    (fun va => (space.pages[va]?).map fun page => (va, page)) = old at he
  simp only [withActive_eq, Option.bind_eq_some_iff, Option.map_eq_some_iff] at he
  obtain ⟨_, ⟨⟨r₁, s₁⟩, he₁, rfl⟩, he⟩ := he
  have hr₁ : r₁ ≠ .error .outOfMemory := by
    rintro rfl
    cases he
    exact hr rfl
  -- the fresh frames
  obtain ⟨hlen, hpool₀, hmem₀, hmeta₀⟩ := allocFresh_pool (length / pageSize)
    (show Pool bound m.mem.frames ([] ++ (tables ++ users ++ rest)) other from hpool) hal
  have hk₀ : ∀ frames, Keeps frames m.mem s₀ := fun frames f _ => by rw [hmem₀, hmeta₀]; exact ⟨rfl, rfl⟩
  have hpool₀' : Pool bound s₀.frames (tables ++ (fresh ++ (users ++ rest))) other := by
    refine hpool₀.perm ?_
    simp only [List.append_assoc]
    exact List.perm_append_comm_assoc ..
  have hnd := List.nodup_append.1 (List.nodup_append.1 hpool₀'.nodup).2.1
  have husers := (List.nodup_append.1 hnd.2.1).1
  -- the pages that are unmapped
  have hpages : ∀ x ∈ old, x.1 ∈ stepBy start (start + length) ∧ space.pages[x.1]? = some x.2 := fun x hx =>
    mem_filterMap_pages (hold ▸ hx)
  have hkeys : (old.map fun x => x.1 / pageSize).Nodup := hold ▸ filterMap_stepBy_nodup space.pages _ _
  have hmap : ∀ x ∈ old, P (x.1 / pageSize) = some (x.2.phys, x.2.flags) := fun x hx => hp.get_some (hpages x hx).2
  simp only [replacePages, Option.bind_eq_bind, Option.bind_eq_some_iff] at he₁
  obtain ⟨⟨r₂, s₂⟩, he₂, he₁⟩ := he₁
  obtain ⟨rfl, tables₂, ht₂, hpool₂, hk₂⟩ := unmapAll_tree arch.lawful (old.map Prod.fst) (ht.keeps (hk₀ _)) hpool₀'
    (fun va hva => by
      obtain ⟨x, hx, rfl⟩ := List.mem_map.1 hva
      exact ⟨(hp.ok (hpages x hx).2).user, by rw [hmap x hx]; simp⟩)
    (by rw [List.map_map]; exact hkeys) he₂
  have hunmapped : ∀ va ∈ stepBy start (start + length),
      setAll P (cleared (old.map Prod.fst)) (va / pageSize) = none := fun va hva => by
    apply setAll_cleared
    cases hpa : space.pages[va]? with
    | none => exact Or.inl (by rw [hp.get (hok va hva).user.1, hpa]; rfl)
    | some page =>
      refine Or.inr (List.mem_map_of_mem (List.mem_map.2 ⟨(va, page), ?_, rfl⟩))
      rw [← hold]
      exact List.mem_filterMap.2 ⟨va, hva, by rw [hpa]; rfl⟩
  -- the pages that are mapped
  let l := (stepBy start (start + length)).zip fresh
  have hlen' : (stepBy start (start + length)).length = fresh.length := by
    rw [stepBy_length halign.2.2, hlen, List.length_nil, Nat.zero_add]
  have hlfst : l.map Prod.fst = stepBy start (start + length) := List.map_fst_zip (Nat.le_of_eq hlen')
  have hlsnd : l.map Prod.snd = fresh := List.map_snd_zip (Nat.le_of_eq hlen'.symm)
  have hlkeys : (l.map fun x => x.1 / pageSize).Nodup := keys_nodup hlfst
  have hmemfst : ∀ x ∈ l, x.1 ∈ stepBy start (start + length) := fun x hx => hlfst ▸ List.mem_map_of_mem hx
  have hmemsnd : ∀ x ∈ l, x.2 ∈ fresh := fun x hx => hlsnd ▸ List.mem_map_of_mem hx
  simp only [Option.bind_eq_some_iff] at he₁
  obtain ⟨⟨r₃, s₃⟩, he₃, he₁⟩ := he₁
  have hr₃ : r₃ ≠ .error .outOfMemory := by
    rintro rfl
    cases he₁
    exact hr₁ rfl
  obtain ⟨rfl, tables₃, ht₃, hpool₃, hk₃⟩ := mapAll_tree arch.lawful hb henc
    (fun f hf => List.mem_append_right _ (List.mem_append_right _ hf)) l ht₂ hpool₂
    (fun x hx => ⟨(hok _ (hmemfst x hx)).user, hunmapped _ (hmemfst x hx), List.mem_append_left _ (hmemsnd x hx),
      fun _ hr => hnd.2.2 _ (hmemsnd x hx) _ (List.mem_append_right _ hr) rfl⟩) hlkeys he₃ hr₃
  -- the frames of the pages that were there before are freed
  obtain ⟨users', hu', hperm⟩ := hu.clearAll old husers hmap hkeys
  have hpool₄ : Pool bound s₃.frames (old.map (·.2.phys) ++ (tables₃ ++ (fresh ++ users') ++ rest)) other := by
    refine hpool₃.perm ?_
    calc List.Perm (tables₃ ++ (fresh ++ (users ++ rest)))
          (tables₃ ++ (fresh ++ ((old.map (·.2.phys) ++ users') ++ rest))) :=
          ((hperm.append_right rest).append_left fresh).append_left tables₃
      List.Perm _ ((tables₃ ++ fresh) ++ (old.map (·.2.phys) ++ (users' ++ rest))) := by
          simp only [List.append_assoc]
          exact List.Perm.refl _
      List.Perm _ (old.map (·.2.phys) ++ ((tables₃ ++ fresh) ++ (users' ++ rest))) := List.perm_append_comm_assoc ..
      List.Perm _ (old.map (·.2.phys) ++ (tables₃ ++ (fresh ++ users') ++ rest)) := by
          simp only [List.append_assoc]
          exact List.Perm.refl _
  obtain ⟨s₄, he₄, hpool₅, hmem₄, hmeta₄⟩ := freeAll_pool (old.map (·.2.phys)) hpool₄
  obtain ⟨rfl, rfl⟩ : .ok () = r₁ ∧ s₄ = s₁ := by
    have he₄' : freeAll (old.map fun x => x.2.phys) s₃ = some s₄ := he₄
    simpa [he₄'] using he₁
  cases he
  have hk₄ : ∀ frames, Keeps frames s₃ s₄ := fun frames f _ => by rw [hmem₄, hmeta₄]; exact ⟨rfl, rfl⟩
  have hpages' : setAll (setAll P (cleared (old.map Prod.fst))) (filled flags l) = setAll P (filled flags l) := by
    refine setAll_cleared_filled fun va hva => ?_
    obtain ⟨x, hx, rfl⟩ := List.mem_map.1 hva
    have := (hpages x hx).1
    rw [← hlfst] at this
    obtain ⟨y, hy, hxy⟩ := List.mem_map.1 this
    exact List.mem_map.2 ⟨y, hy, by rw [hxy]⟩
  have hndu : (fresh ++ users').Nodup := by
    have := (List.nodup_append.1 hpool₅.nodup).1
    exact (List.nodup_append.1 this).2.1
  have hu₃ : Users (setAll P (filled flags l)) (fresh ++ users') := by
    have := hu'.fillAll flags l (fun x hx => hunmapped _ (hmemfst x hx)) hlkeys (by rw [hlsnd]; exact hndu)
    rw [hpages', hlsnd] at this
    exact this
  rw [hpages'] at ht₃
  refine ⟨tables₃ ++ (fresh ++ users'), ⟨_, tables₃, fresh ++ users', rfl, ht₃.keeps (hk₄ _), hu₃, ?_⟩, hpool₅, ?_⟩
  · exact hp.insertAll flags l fun x hx => hok _ (hmemfst x hx)
  · refine (((hk₀ rest).trans (hk₂.mono ?_)).trans hk₃).trans (hk₄ _)
    exact fun f hf => List.mem_append_right _ (List.mem_append_right _ hf)

/-! ## New address spaces -/

theorem empty_spec (arch : Arch) (hb : bound ≤ 2 ^ 36) (hpool : Pool bound m.mem.frames rest other) {r : Except MapError AddressSpace}
    (he : AddressSpace.empty m = some (r, m')) (hr : r ≠ .error .outOfMemory) :
    ∃ root, r = .ok ⟨root, true, ∅⟩ ∧ Tree arch.format m'.mem root (fun _ => none) [root] ∧
      Pool bound m'.mem.frames (root :: rest) other ∧ Keeps rest m.mem m'.mem := by
  obtain ⟨-, q, hal, ⟨-, rfl, -⟩ | ⟨root, rfl, rfl, hmeta, hother, hentry⟩⟩ := empty_cases he
  · exact absurd rfl hr
  obtain ⟨_, ⟨⟩, hpool', -⟩ | ⟨⟨⟩, -⟩ := allocFrame_cases hpool hal
  refine ⟨root, rfl, ⟨_, _, Rep.new arch.lawful.top_pos ?_ ?_ (fun _ _ _ => rfl), Lists.root _ _, fun _ _ _ h => by cases h⟩, hpool', ?_⟩
  · exact FrameOk.of_placed hb (hpool'.placed (List.mem_cons_self ..))
  · exact fun i _ hi => (hentry i).resolve_right fun h => Nat.not_lt.2 h.1 hi
  · intro f hf
    refine ⟨hother f ?_, by rw [hmeta]⟩
    rintro rfl
    exact (List.nodup_cons.1 hpool'.nodup).1 hf

/-- The loop of `fork`: the pages of `l` are added to the child, with the contents of the parent's frames. -/
theorem forkPages_spec (hb : bound ≤ 2 ^ 36) : ∀ (l : List (Nat × VmPage)) (child : AddressSpace) {m m' : Machine}
    {P : Pages} {tables users : List Nat} {r : Except MapError AddressSpace},
    Tree arch.format m.mem child.root P tables → Users P users → Reflects arch lowerHalf child.pages P →
    Pool bound m.mem.frames (tables ++ users ++ rest) other →
    (∀ x ∈ l, PageOk arch lowerHalf x.1 x.2.flags ∧ x.2.phys ∈ rest ∧ child.pages[x.1]? = none) → (l.map Prod.fst).Nodup →
    AddressSpace.forkPages arch l child m = some (r, m') → r ≠ .error .outOfMemory →
    ∃ child', r = .ok child' ∧ (∃ P' tables' users', Tree arch.format m'.mem child'.root P' tables' ∧
        Users P' users' ∧ Reflects arch lowerHalf child'.pages P' ∧ Pool bound m'.mem.frames (tables' ++ users' ++ rest) other) ∧
      Keeps (users ++ rest) m.mem m'.mem ∧
      (∀ va, va ∉ l.map Prod.fst → child'.pages[va]? = child.pages[va]?) ∧
      ∀ x ∈ l, ∃ page, child'.pages[x.1]? = some page ∧ page.flags = x.2.flags ∧
        m'.mem.mem page.phys = m.mem.mem x.2.phys
  | [], child, m, m', P, tables, users, r, h, hu, hp, hpool, _, _, he, _ => by
    cases he
    exact ⟨child, rfl, ⟨P, tables, users, h, hu, hp, hpool⟩, Keeps.refl _ _, fun _ _ => rfl, nofun⟩
  | (va, page) :: l, child, m, m', P, tables, users, r, h, hu, hp, hpool, hl, hnd, he, hr => by
    obtain ⟨hok, hrest, hnone⟩ := hl _ (List.mem_cons_self ..)
    simp only [AddressSpace.forkPages, Option.bind_eq_bind, Option.bind_eq_some_iff] at he
    obtain ⟨⟨r₁, child₁, m₁⟩, he₁, he⟩ := he
    have hr₁ : r₁ ≠ .error .outOfMemory := by
      rintro rfl
      simp only [Option.bind_eq_some_iff] at he
      obtain ⟨_, _, he⟩ := he
      cases he
      exact hr rfl
    rcases mapZeroed_spec hb h hu hp hpool hok.user.2 hok.encodes he₁ hr₁ with
      ⟨-, -, -, hbad⟩ | ⟨p, tables₁, rfl, rfl, h₁, hu₁, hp₁, hpool₁, hk₁⟩
    · exact absurd ⟨hok, hnone⟩ hbad
    -- the copy touches the new frame only
    have hnd₁ := List.nodup_append.1 hpool₁.nodup
    have hp_tables : p ∉ tables₁ := fun hm => (List.nodup_append.1 hnd₁.1).2.2 _ hm _ (List.mem_cons_self ..) rfl
    have hp_users : p ∉ users ++ rest := by
      intro hm
      rcases List.mem_append.1 hm with hm | hm
      · exact (List.nodup_cons.1 (List.nodup_append.1 hnd₁.1).2.1).1 hm
      · exact hnd₁.2.2 p (by simp) _ hm rfl
    rw [List.map_cons, List.nodup_cons] at hnd
    have hl₁ : ∀ x ∈ l, PageOk arch lowerHalf x.1 x.2.flags ∧ x.2.phys ∈ rest ∧
        (child.pages.insert va ⟨p, page.flags⟩)[x.1]? = none := by
      intro x hx
      obtain ⟨hokx, hrx, hnx⟩ := hl x (List.mem_cons_of_mem _ hx)
      refine ⟨hokx, hrx, ?_⟩
      rw [Std.TreeMap.getElem?_insert, if_neg]
      · exact hnx
      · intro hc
        exact hnd.1 (List.mem_map.2 ⟨x, hx, (Nat.compare_eq_eq.1 hc).symm⟩)
    have hcopy : ∀ {frames : List Nat}, p ∉ frames → Keeps frames m₁.mem (copyPage m₁.mem page.phys p) := fun hp =>
      Keeps.of_update hp rfl rfl
    obtain ⟨child', rfl, hown, hk₂, hkeep, hall⟩ := forkPages_spec hb l
      { child with pages := child.pages.insert va ⟨p, page.flags⟩ }
      (m := { m₁ with mem := copyPage m₁.mem page.phys p }) (h₁.keeps (hcopy hp_tables)) hu₁ hp₁ hpool₁ hl₁ hnd.2 he hr
    have hk : Keeps (users ++ rest) m.mem m'.mem := by
      refine (hk₁.trans (hcopy hp_users)).trans (hk₂.mono fun f hf => ?_)
      rw [List.cons_append]
      exact List.mem_cons_of_mem _ hf
    refine ⟨child', rfl, hown, hk, ?_, ?_⟩
    · intro w hw
      rw [List.map_cons, List.mem_cons, not_or] at hw
      rw [hkeep w hw.2, Std.TreeMap.getElem?_insert, if_neg]
      intro hc
      exact hw.1 (Nat.compare_eq_eq.1 hc).symm
    · intro x hx
      rcases List.mem_cons.1 hx with rfl | hx
      · refine ⟨⟨p, page.flags⟩, ?_, rfl, ?_⟩
        · rw [hkeep va hnd.1, Std.TreeMap.getElem?_insert, if_pos (Nat.compare_eq_eq.2 rfl)]
        · rw [(hk₂ p (by simp)).1]
          show Function.update m₁.mem.mem p _ p = _
          rw [Function.update_self]
          exact (hk₁ _ (List.mem_append_right _ hrest)).1
      · obtain ⟨page', hpage', hflags, hmem⟩ := hall x hx
        refine ⟨page', hpage', hflags, hmem.trans ?_⟩
        have hin : x.2.phys ∈ users ++ rest := List.mem_append_right _ (hl x (List.mem_cons_of_mem _ hx)).2.1
        exact (hcopy hp_users _ hin).1.trans (hk₁ _ hin).1

/-- A fork has the addresses, the flags and the contents of its parent. -/
structure Forked (s : Memory) (parent : AddressSpace) (s' : Memory) (child : AddressSpace) : Prop where
  flags_eq : ∀ va : Nat, (child.pages[va]?).map VmPage.flags = (parent.pages[va]?).map VmPage.flags
  contents_eq : ∀ {va : Nat} {page page' : VmPage}, parent.pages[va]? = some page → child.pages[va]? = some page' →
    s'.mem page'.phys = s.mem page.phys

theorem fork_spec (hb : bound ≤ 2 ^ 36) (h : Owns arch m.mem space own)
    (hpool : Pool bound m.mem.frames rest other) (hsub : ∀ f ∈ own, f ∈ rest) {r : Except MapError AddressSpace}
    (he : space.fork arch m = some (r, m')) (hr : r ≠ .error .outOfMemory) :
    ∃ child own', r = .ok child ∧ Owns arch m'.mem child own' ∧ Pool bound m'.mem.frames (own' ++ rest) other ∧
      Keeps rest m.mem m'.mem ∧ Forked m.mem space m'.mem child := by
  obtain ⟨P, tables, users, rfl, -, hu, hp⟩ := h
  simp only [AddressSpace.fork, Option.bind_eq_bind, Option.bind_eq_some_iff] at he
  obtain ⟨⟨r₁, m₁⟩, he₁, he⟩ := he
  have hr₁ : r₁ ≠ .error .outOfMemory := by
    rintro rfl
    cases he
    exact hr rfl
  obtain ⟨root, rfl, ht₁, hpool₁, hk₁⟩ := empty_spec arch hb hpool he₁ hr₁
  have hnone : ∀ va : Nat, (∅ : Std.TreeMap Nat VmPage)[va]? = none := fun va => Std.TreeMap.getElem?_emptyc
  have hu₁ : Users (fun _ => none) [] := ⟨fun f => ⟨nofun, nofun⟩, nofun⟩
  have hp₁ : Reflects arch lowerHalf ∅ fun _ => none := ⟨fun v => by rw [hnone]; rfl, fun hv => by rw [hnone] at hv; cases hv⟩
  have hlist : ∀ x ∈ space.pages.toList, space.pages[x.1]? = some x.2 := fun x hx =>
    Std.TreeMap.mem_toList_iff_getElem?_eq_some.1 hx
  have hnd : (space.pages.toList.map Prod.fst).Nodup := by
    rw [Std.TreeMap.map_fst_toList_eq_keys]
    exact Std.TreeMap.nodup_keys
  have hl : ∀ x ∈ space.pages.toList, PageOk arch lowerHalf x.1 x.2.flags ∧ x.2.phys ∈ rest ∧
      (∅ : Std.TreeMap Nat VmPage)[x.1]? = none := by
    intro x hx
    refine ⟨hp.ok (hlist x hx), hsub _ (List.mem_append_right _ ?_), hnone _⟩
    exact (hu.mem_iff _).2 ⟨_, _, hp.get_some (hlist x hx)⟩
  obtain ⟨child, rfl, ⟨P', tables', users', ht', hu', hp', hpool'⟩, hk₂, hkeep, hall⟩ :=
    forkPages_spec hb space.pages.toList ⟨root, true, ∅⟩ ht₁ hu₁ hp₁ hpool₁ hl hnd he hr
  refine ⟨child, tables' ++ users', rfl, ⟨P', tables', users', rfl, ht', hu', hp'⟩, hpool',
    hk₁.trans (hk₂.mono fun f hf => hf), ?_⟩
  constructor
  · intro va
    cases hpa : space.pages[va]? with
    | none =>
      have hnot : va ∉ space.pages.toList.map Prod.fst := by
        intro hm
        obtain ⟨x, hx, rfl⟩ := List.mem_map.1 hm
        rw [hlist x hx] at hpa
        cases hpa
      rw [hkeep va hnot, hnone]
    | some page =>
      obtain ⟨page', hpage', hflags, -⟩ := hall (va, page) (Std.TreeMap.mem_toList_iff_getElem?_eq_some.2 hpa)
      rw [hpage']
      exact congrArg some hflags
  · intro va page page' hpa hpa'
    have hin := Std.TreeMap.mem_toList_iff_getElem?_eq_some.2 hpa
    obtain ⟨page'', hpage'', -, hmem⟩ := hall (va, page) hin
    obtain rfl : page' = page'' := Option.some.inj (hpa'.symm.trans hpage'')
    rw [hmem]
    exact (hk₁ _ (hl _ hin).2.1).1

end Operations

end Koros.Mm
