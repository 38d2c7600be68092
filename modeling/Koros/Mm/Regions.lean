import Koros.Mm.Isolation

/-!
# The heap and the mapped regions of a process

`brk` and a `mmap` without a fixed address hand out pages of one map with separate cursors: `brk` grows from `brkBase`,
`mmap` looks for a free range from `mmap_next` on. `mmap` never takes a page that is mapped, so it stays off the other
regions, and off the heap as long as the heap's pages are mapped; `brk` accepts a page that is mapped already, whoever
mapped it.

- `Regions`: a process with the pages of its live regions;
- `growPages_zero`: pages that `brk` maps itself are zero when it returns;
- **`regions_disjoint`**: in a run in which `brk` meets no mapped page, and `mmap` a heap with its pages above the cursor
  still mapped, nothing collides;
- `brk_grants_mapped`: on aarch64 the cursor of `mmap` runs into the heap.
-/
set_option autoImplicit false

namespace Koros.Mm

open Koros.Frame Koros.Mmu

/-! ## Calls of one process -/

/-- The calls that hand out and take back pages, and what user code does between them. -/
inductive RegionCall where
  /-- A file that cannot be read gives the error number `-(e + 1)`. -/
  | mmap (address length prot flags : Nat) (file : Except Nat (List (Nat × (Nat → Nat))))
  | munmap (addr len : Nat)
  | brk (addr : Nat)
  | store (vaddr : Nat) (words : Nat → Nat)

structure Regions where
  proc : Process
  machine : Machine
  /-- The pages that `mmap` returned and `munmap` did not take back. -/
  live : List Nat

/-- A length in whole pages. -/
def wholePages (length : Nat) : Nat := (length + (pageSize - 1)) / pageSize * pageSize

namespace Regions

variable (arch : Arch)

/-- The break, which the first call of `brk` sets. -/
def currentBreak (w : Regions) : Nat := if w.proc.brk = 0 then arch.brkBase else w.proc.brk

/-- The bytes that a call of `mmap` asks for. -/
def asked (length : Nat) : Nat := wholePages (if length = 0 then pageSize else length)

def step (w : Regions) : RegionCall → Option (Int × Regions)
  | .mmap address length prot flags file => do
    -- fixed addresses are left out
    if flags &&& 0x10 ≠ 0 then none
    else
      let (r, p, m) ← w.proc.mmap arch w.machine address length prot flags (file.mapError Int.negSucc)
      some (r, ⟨p, m, if r < 0 then w.live else w.live ++ stepBy r.toNat (r.toNat + asked length)⟩)
  | .munmap addr len => do
    let (r, p, m) ← w.proc.munmap arch w.machine addr len
    some (r, ⟨p, m, if r = 0 then w.live.filter fun a => !(addr ≤ a && a < addr + wholePages len) else w.live⟩)
  | .brk addr => do
    let (r, p, m) ← w.proc.sysBrk arch w.machine addr
    some (r, ⟨p, m, w.live⟩)
  | .store vaddr words => some (0, ⟨w.proc, w.proc.store arch w.machine vaddr words, w.live⟩)

/-- The pages between the break and the new one. -/
def granted (w : Regions) (addr : Nat) : List Nat := stepBy (wholePages (w.currentBreak arch)) (wholePages addr)

/-- User code reads zeros from the page at `a`, if it can read it. -/
def ReadsZero (w : Regions) (a : Nat) : Prop :=
  ∃ page, w.proc.space.pages[a]? = some page ∧ w.machine.mem.mem page.phys = (fun _ => 0) ∧
    ∀ va pa flags, pageOf va = a → arch.translate w.machine.mem w.proc.space.root va = some (pa, flags) →
      pa = page.phys + va % pageSize

/-- The call, made in `w`, handed out nothing that was in use. -/
def Sound (w : Regions) (r : Int) (w' : Regions) : RegionCall → Prop
  | .mmap _ length _ _ _ => 0 ≤ r → ∀ x, r.toNat ≤ x → x < r.toNat + asked length →
      pageOf x ∉ w.live ∧ ¬ (arch.brkBase ≤ x ∧ x < w.proc.brk)
  | .brk addr => w.currentBreak arch < addr → r = addr → ∀ a ∈ w.granted arch addr, a ∉ w.live ∧ w'.ReadsZero arch a
  | _ => True

/-- `brk` meets no mapped page; for `mmap`, the pages of the heap that its cursor can reach are mapped. -/
def Careful (w : Regions) : RegionCall → Prop
  | .mmap .. => ∀ a, a % pageSize = 0 → arch.brkBase ≤ a → a < w.proc.brk → w.proc.mmapNext ≤ a →
      w.proc.space.pages.contains a = true
  | .brk addr => ∀ a ∈ w.granted arch addr, w.proc.space.pages.contains a = false
  | _ => True

def CarefulRun (w : Regions) : List RegionCall → Prop
  | [] => True
  | c :: cs => w.Careful arch c ∧ ∀ r w', w.step arch c = some (r, w') → CarefulRun w' cs

/-- Every call of the run is sound. -/
def SoundRun (w : Regions) : List RegionCall → Prop
  | [] => True
  | c :: cs => ∀ r w', w.step arch c = some (r, w') → w.Sound arch r w' c ∧ SoundRun w' cs

end Regions

/-! ## The keys of the map -/

section Keys

variable {arch : Arch} {space space' : AddressSpace} {m m' : Machine} {a : Nat}

theorem contains_insert {pages : Std.TreeMap Nat VmPage} (h : pages.contains a = true) (va : Nat) (page : VmPage) :
    (pages.insert va page).contains a = true := by
  rw [Std.TreeMap.contains_insert, h, Bool.or_true]

theorem contains_eraseAll : ∀ (old : List (Nat × VmPage)) {pages : Std.TreeMap Nat VmPage}, pages.contains a = true →
    a ∉ old.map Prod.fst → (old.foldl (fun pages x => pages.erase x.1) pages).contains a = true
  | [], _, h, _ => h
  | x :: old, pages, h, hout => by
    rw [List.map_cons, List.mem_cons, not_or] at hout
    refine contains_eraseAll old ?_ hout.2
    rw [Std.TreeMap.contains_erase, h, Bool.and_true, bne_iff_ne, ne_eq, Nat.compare_eq_eq]
    exact fun he => hout.1 he.symm

/-- A page outside the range stays. -/
theorem unmapRange_contains {start length : Nat} {r : Except MapError Unit}
    (he : space.unmapRange arch m start length = some (r, space', m')) (ha : space.pages.contains a = true)
    (hout : ¬ (start ≤ a ∧ a < start + length)) : space'.pages.contains a = true := by
  unfold AddressSpace.unmapRange at he
  split at he
  · cases he
    exact ha
  split at he
  · cases he
    exact ha
  rename_i stop hstop
  simp only [Option.bind_eq_bind, Option.bind_eq_some_iff] at he
  obtain ⟨⟨r₁, m₁⟩, -, he⟩ := he
  cases r₁ with
  | error e =>
    cases he
    exact ha
  | ok _ =>
    simp only [Option.bind_eq_some_iff] at he
    obtain ⟨s, -, he⟩ := he
    cases he
    refine contains_eraseAll _ ha fun hmem => ?_
    obtain ⟨x, hx, rfl⟩ := List.mem_map.1 hmem
    have hin := mem_stepBy (mem_filterMap_pages hx).1
    have := (checkedAdd_some hstop).2
    omega

/-- A call that fails keeps the map. -/
theorem unmapRange_error {start length : Nat} {e : MapError}
    (he : space.unmapRange arch m start length = some (.error e, space', m')) : space' = space := by
  unfold AddressSpace.unmapRange at he
  split at he
  · cases he
    rfl
  split at he
  · cases he
    rfl
  simp only [Option.bind_eq_bind, Option.bind_eq_some_iff] at he
  obtain ⟨⟨r₁, m₁⟩, -, he⟩ := he
  cases r₁ with
  | error e =>
    cases he
    rfl
  | ok _ =>
    simp only [Option.bind_eq_some_iff] at he
    obtain ⟨s, -, he⟩ := he
    cases he

theorem mapZeroed_contains {va : Nat} {flags : MappingFlags} {r : Except MapError Nat}
    (he : space.mapZeroed arch m va flags = some (r, space', m')) :
    (space.pages.contains a = true → space'.pages.contains a = true) ∧
      ((∃ p, r = .ok p) → space'.pages.contains va = true) := by
  rcases mapZeroed_cases he with ⟨⟨e, rfl⟩, rfl, rfl⟩ | ⟨-, -, -, s, -, rfl, ⟨⟨e, rfl⟩, rfl⟩ | ⟨p, rfl, rfl⟩⟩
  · exact ⟨id, nofun⟩
  · exact ⟨id, nofun⟩
  · exact ⟨fun h => contains_insert h va _, fun _ => Std.TreeMap.contains_insert_self ..⟩

/-- The loop of `mmap` keeps the pages outside its range, and on success has all of the range. -/
theorem mapPages_contains {start : Nat} {flags : MappingFlags} : ∀ (n : Nat) {mapped : Nat} {space space' : AddressSpace}
    {m m' : Machine} {r : Except MapError Unit},
    AddressSpace.mapPages arch start flags n mapped space m = some (r, space', m') →
    (∀ a, space.pages.contains a = true → ¬ (start ≤ a ∧ a < start + mapped + n * pageSize) →
      space'.pages.contains a = true) ∧
    (r = .ok () → ∀ a, space.pages.contains a = true → space'.pages.contains a = true) ∧
    (r = .ok () → ∀ i < n, space'.pages.contains (start + mapped + i * pageSize) = true)
  | 0, mapped, space, space', m, m', r, he => by
    cases he
    exact ⟨fun _ h _ => h, fun _ _ h => h, fun _ i hi => absurd hi (Nat.not_lt_zero i)⟩
  | n + 1, mapped, space, space', m, m', r, he => by
    simp only [AddressSpace.mapPages, Option.bind_eq_bind, Option.bind_eq_some_iff] at he
    obtain ⟨⟨r₁, space₁, m₁⟩, he₁, he⟩ := he
    cases r₁ with
    | ok p =>
      obtain ⟨hkeep, hall, hrange⟩ := mapPages_contains n he
      have hadd : ∀ a, space.pages.contains a = true → space₁.pages.contains a = true :=
        fun a => (mapZeroed_contains he₁).1
      refine ⟨fun a h hout => hkeep a (hadd a h) ?_, fun hr a h => hall hr a (hadd a h), fun hr i hi => ?_⟩
      · unfold pageSize at *
        omega
      · cases i with
        | zero =>
          have hnew := (mapZeroed_contains (a := start + mapped) he₁).2 ⟨p, rfl⟩
          rw [Nat.zero_mul, Nat.add_zero]
          exact hall hr _ hnew
        | succ i =>
          have hi' := hrange hr i (by omega)
          rwa [show start + (mapped + pageSize) + i * pageSize = start + mapped + (i + 1) * pageSize by
            unfold pageSize; omega] at hi'
    | error e =>
      simp only [Option.bind_eq_some_iff] at he
      obtain ⟨⟨r₂, space₂, m₂⟩, he₂, he⟩ := he
      cases he
      refine ⟨fun a h hout => ?_, by simp, by simp⟩
      exact unmapRange_contains he₂ ((mapZeroed_contains he₁).1 h) (by unfold pageSize at hout; omega)

theorem growPages_contains {flags : MappingFlags} : ∀ (l : List Nat) {space space' : AddressSpace} {m m' : Machine}
    {r : Except MapError Unit}, AddressSpace.growPages arch flags l space m = some (r, space', m') →
    space.pages.contains a = true → space'.pages.contains a = true
  | [], space, space', m, m', r, he, h => by
    cases he
    exact h
  | va :: l, space, space', m, m', r, he, h => by
    unfold AddressSpace.growPages at he
    split at he
    · exact growPages_contains l he h
    simp only [Option.bind_eq_bind, Option.bind_eq_some_iff] at he
    obtain ⟨⟨r₁, space₁, m₁⟩, he₁, he⟩ := he
    have h₁ := (mapZeroed_contains he₁).1 h
    cases r₁ with
    | ok p => exact growPages_contains l he h₁
    | error e =>
      cases he
      exact h₁

/-- The pages of `l`, none of which is mapped, are zero once `brk` has mapped them. -/
theorem growPages_zero {bound : Nat} {other : List Extent} {rest : List Nat} (hb : bound ≤ 2 ^ 36) {flags : MappingFlags} :
    ∀ (l : List Nat) {space space' : AddressSpace} {m m' : Machine}, Fenced arch bound other rest m.mem space →
    l.Nodup → (∀ a ∈ l, space.pages.contains a = false) →
    AddressSpace.growPages arch flags l space m = some (.ok (), space', m') →
    (∀ {w : Nat} {page : VmPage}, space.pages[w]? = some page →
      space'.pages[w]? = some page ∧ m'.mem.mem page.phys = m.mem.mem page.phys) ∧
    ∀ a ∈ l, ∃ page, space'.pages[a]? = some page ∧ m'.mem.mem page.phys = fun _ => 0
  | [], space, space', m, m', h, _, _, he => by
    cases he
    exact ⟨fun hp => ⟨hp, rfl⟩, List.forall_mem_nil _⟩
  | va :: l, space, space', m, m', h, hnd, hfree, he => by
    have hva := hfree va (List.mem_cons_self ..)
    unfold AddressSpace.growPages at he
    rw [if_neg (by rw [hva]; decide)] at he
    simp only [Option.bind_eq_bind, Option.bind_eq_some_iff] at he
    obtain ⟨⟨r₁, space₁, m₁⟩, he₁, he⟩ := he
    obtain ⟨h₁, -⟩ := mapZeroed_stays hb h he₁
    obtain ⟨hsame, hzero⟩ := mapZeroed_contents hb h he₁
    cases r₁ with
    | error e => cases he
    | ok p =>
      rw [List.nodup_cons] at hnd
      -- the map has one page more
      obtain rfl : space₁ = { space with pages := space.pages.insert va ⟨p, flags⟩ } := by
        rcases mapZeroed_cases he₁ with ⟨⟨e, hr⟩, -⟩ | ⟨-, -, -, s, -, -, ⟨⟨e, hr⟩, -⟩ | ⟨p', hr, hs⟩⟩
        · cases hr
        · cases hr
        · cases hr
          exact hs
      have hget : ∀ w : Nat, (space.pages.insert va ⟨p, flags⟩)[w]? =
          if va = w then some ⟨p, flags⟩ else space.pages[w]? := by
        intro w
        rw [Std.TreeMap.getElem?_insert]
        simp only [Nat.compare_eq_eq]
      obtain ⟨hkeep, hall⟩ := growPages_zero hb l h₁.fenced hnd.2 (fun w hw => by
        have hne : va ≠ w := fun heq => hnd.1 (heq ▸ hw)
        have hw' := hfree w (List.mem_cons_of_mem _ hw)
        rw [Std.TreeMap.contains_eq_isSome_getElem?] at hw' ⊢
        rwa [hget, if_neg hne]) he
      constructor
      · intro w page hp
        have hne : va ≠ w := by
          rintro rfl
          rw [Std.TreeMap.contains_eq_isSome_getElem?, hp] at hva
          cases hva
        obtain ⟨hp', hm'⟩ := hkeep (show (space.pages.insert va ⟨p, flags⟩)[w]? = some page by rw [hget, if_neg hne, hp])
        exact ⟨hp', hm'.trans (hsame hp)⟩
      · intro w hw
        rcases List.mem_cons.1 hw with rfl | hw
        · obtain ⟨hp', hm'⟩ := hkeep (show (space.pages.insert w ⟨p, flags⟩)[w]? = some ⟨p, flags⟩ by
            rw [hget, if_pos rfl])
          exact ⟨_, hp', hm'.trans (hzero p rfl)⟩
        · exact hall w hw

end Keys

/-! ## Where `mmap` puts its pages -/

section Place

variable {arch : Arch} {p p' : Process}

/-- The search only moves up and ends at a free range. -/
theorem findFree_spec {space : AddressSpace} {length : Nat} : ∀ (fuel : Nat) {start found : Nat},
    space.findFree arch length fuel start = some found →
    start ≤ found ∧ space.rangeIsFree arch found length = true
  | 0, start, found, h => by cases h
  | fuel + 1, start, found, h => by
    unfold AddressSpace.findFree at h
    split at h
    · rename_i hfree
      cases h
      exact ⟨Nat.le_refl _, hfree⟩
    · obtain ⟨next, hnext, h⟩ := Option.bind_eq_some_iff.1 h
      obtain ⟨hle, hfree⟩ := findFree_spec fuel h
      have := (checkedAdd_some hnext).2
      exact ⟨by omega, hfree⟩

theorem roundUp_eq {length rounded : Nat} (h : roundUp length = some rounded) : rounded = wholePages length := by
  obtain ⟨x, hx, rfl⟩ := Option.map_eq_some_iff.1 h
  rw [(checkedAdd_some hx).2]
  rfl

/-- A free range is aligned and has no mapped page. -/
theorem rangeIsFree_spec {space : AddressSpace} {start length : Nat} (h : space.rangeIsFree arch start length = true) :
    start % pageSize = 0 ∧ ∀ a ∈ stepBy start (start + length), space.pages.contains a = false := by
  unfold AddressSpace.rangeIsFree at h
  split at h
  · cases h
  rename_i hgood
  split at h
  · cases h
  rename_i stop hstop
  obtain ⟨-, rfl⟩ := checkedAdd_some hstop
  rw [Bool.and_eq_true, List.all_eq_true] at h
  refine ⟨by omega, fun a ha => ?_⟩
  simpa using h.2 a ha

theorem pageOf_mem_stepBy {start stop x : Nat} (ha : start % pageSize = 0) (h₁ : start ≤ x) (h₂ : x < stop) :
    pageOf x ∈ stepBy start stop := by
  refine List.mem_map.2 ⟨(pageOf x - start) / pageSize, List.mem_range.2 ?_, ?_⟩
  · unfold pageOf pageSize at *
    omega
  · unfold pageOf pageSize at *
    omega

theorem place_spec {address length start : Nat} (h : p.place arch address length false = .ok (start, p')) :
    p'.space = p.space ∧ p.mmapNext ≤ start ∧ p.space.rangeIsFree arch start (wholePages length) = true := by
  refine ⟨place_space h, ?_⟩
  unfold Process.place at h
  rw [if_neg (by decide)] at h
  split at h
  · cases h
  rename_i rounded hround
  split at h
  · cases h
  rename_i found hfound
  split at h
  · cases h
  cases h
  rw [← roundUp_eq hround]
  exact findFree_spec _ hfound

theorem place_error {address length : Nat} {e : Int} (h : p.place arch address length false = .error e) : e < 0 := by
  unfold Process.place at h
  rw [if_neg (by decide)] at h
  split at h
  · cases h
    decide
  split at h
  · cases h
    decide
  split at h
  · cases h
    decide
  · cases h

theorem errno_neg (e : MapError) : errno e < 0 := by cases e <;> decide

/-- `mmap` without a fixed address keeps what is mapped; what it returns is new, from the cursor on. -/
theorem mmap_contains {m m' : Machine} {address length prot flags : Nat} (hkey : Keyed arch p.space.pages)
    (hfixed : flags &&& 0x10 = 0)
    {file : Except Nat (List (Nat × (Nat → Nat)))} {r : Int}
    (he : p.mmap arch m address length prot flags (file.mapError Int.negSucc) = some (r, p', m')) :
    (∀ a, p.space.pages.contains a = true → p'.space.pages.contains a = true) ∧
    (0 ≤ r → p.mmapNext ≤ r.toNat ∧ r.toNat % pageSize = 0 ∧
      ∀ a ∈ stepBy r.toNat (r.toNat + Regions.asked length),
        p.space.pages.contains a = false ∧ p'.space.pages.contains a = true) := by
  unfold Process.mmap at he
  simp only [hfixed, ne_eq, not_true_eq_false, decide_false] at he
  generalize hlen : (if length = 0 then pageSize else length) = len at he
  have hasked : Regions.asked length = wholePages len := by rw [Regions.asked, hlen]
  split at he
  · rename_i e hplace
    cases he
    exact ⟨fun a h => h, fun hr => absurd (place_error hplace) (by omega)⟩
  rename_i start p₁ hplace
  obtain ⟨hspace, hnext, hfree⟩ := place_spec hplace
  obtain ⟨haligned, hnone⟩ := rangeIsFree_spec hfree
  split at he
  · cases he
    rw [hspace]
    exact ⟨fun a h => h, fun hr => absurd hr (by decide)⟩
  rename_i rounded hround
  have hrounded := roundUp_eq hround
  have hmul : rounded / pageSize * pageSize = wholePages len := by
    rw [hrounded]
    unfold wholePages pageSize
    omega
  simp only [Process.mapRange, Option.bind_eq_bind, Option.bind_eq_some_iff, Bool.false_eq_true, if_false] at he
  obtain ⟨⟨r₁, space₁, m₁⟩, he₁, he⟩ := he
  rw [hspace] at he₁
  obtain ⟨hkeep, -, hrange⟩ := mapPages_contains _ he₁
  have hout : ∀ a, p.space.pages.contains a = true → ¬ (start ≤ a ∧ a < start + wholePages len) := by
    intro a ha hin
    have hsome := ha
    rw [Std.TreeMap.contains_eq_isSome_getElem?] at hsome
    obtain ⟨page, hp⟩ := Option.isSome_iff_exists.1 hsome
    have hal := (hkey hp).1
    have hmem := pageOf_mem_stepBy haligned hin.1 hin.2
    rw [show pageOf a = a by unfold pageOf; omega] at hmem
    rw [hnone a hmem] at ha
    cases ha
  have hold : ∀ a, p.space.pages.contains a = true → space₁.pages.contains a = true := by
    intro a ha
    refine hkeep a ha ?_
    rw [hmul, Nat.add_zero]
    exact hout a ha
  cases r₁ with
  | error e =>
    cases he
    exact ⟨hold, fun hr => absurd (errno_neg e) (by omega)⟩
  | ok _ =>
    have hnew : ∀ a ∈ stepBy start (start + wholePages len),
        p.space.pages.contains a = false ∧ space₁.pages.contains a = true := by
      intro a ha
      refine ⟨hnone a ha, ?_⟩
      obtain ⟨i, hi, rfl⟩ := List.mem_map.1 ha
      have hi' := List.mem_range.1 hi
      have hgot := hrange rfl i (by rw [hrounded]; unfold wholePages pageSize at *; omega)
      rwa [Nat.add_zero] at hgot
    dsimp only at he
    split at he
    · cases he
      rw [hasked]
      exact ⟨hold, fun _ => ⟨hnext, haligned, hnew⟩⟩
    split at he
    · cases he
      rw [hasked]
      exact ⟨hold, fun _ => ⟨hnext, haligned, hnew⟩⟩
    · rename_i e hfile
      simp only [Option.bind_eq_some_iff] at he
      obtain ⟨⟨r₂, space₂, m₂⟩, he₂, he⟩ := he
      cases he
      refine ⟨fun a ha => unmapRange_contains he₂ (hold a ha) (by rw [hrounded]; exact hout a ha), fun hr => ?_⟩
      cases file with
      | error n =>
        cases hfile
        exact absurd hr (Int.not_le.2 (Int.negSucc_lt_zero n))
      | ok contents => cases hfile

end Place

/-! ## Runs -/

section Run

variable {arch : Arch} {bound : Nat} {other : List Extent} {rest : List Nat} {w w' : Regions} {r : Int}

/-- The process is fenced, and its live regions are mapped. -/
structure RegionsInv (arch : Arch) (bound : Nat) (other : List Extent) (rest : List Nat) (w : Regions) : Prop where
  fenced : Fenced arch bound other rest w.machine.mem w.proc.space
  live : ∀ a ∈ w.live, w.proc.space.pages.contains a = true

theorem brkBase_aligned (arch : Arch) : arch.brkBase % pageSize = 0 := by cases arch <;> decide

theorem mmap_sound (hb : bound ≤ 2 ^ 36) (h : RegionsInv arch bound other rest w) {address length prot flags : Nat}
    {file : Except Nat (List (Nat × (Nat → Nat)))} (hc : w.Careful arch (.mmap address length prot flags file))
    (hs : w.step arch (.mmap address length prot flags file) = some (r, w')) :
    RegionsInv arch bound other rest w' ∧ w.Sound arch r w' (.mmap address length prot flags file) := by
  simp only [Regions.step, Option.bind_eq_bind, Option.ite_none_left_eq_some, Option.bind_eq_some_iff, not_not] at hs
  obtain ⟨hfixed, ⟨r₁, p, m⟩, he, hs⟩ := hs
  cases hs
  obtain ⟨own, -, hkey, -⟩ := h.fenced
  obtain ⟨hold, hnew⟩ := mmap_contains hkey hfixed he
  refine ⟨⟨(mmap_stays hb h.fenced he).fenced, fun a ha => ?_⟩, fun hr x h₁ h₂ => ?_⟩
  · dsimp only at ha
    split at ha
    · exact hold a (h.live a ha)
    · rename_i hr
      rcases List.mem_append.1 ha with ha | ha
      · exact hold a (h.live a ha)
      · exact ((hnew (by omega)).2.2 a ha).2
  · obtain ⟨hnext, haligned, hfree⟩ := hnew hr
    have hnone := (hfree _ (pageOf_mem_stepBy haligned h₁ h₂)).1
    refine ⟨fun hlive => ?_, fun hheap => ?_⟩
    · rw [h.live _ hlive] at hnone
      cases hnone
    · -- the page would be a page of the heap that the cursor can reach
      have hbase := brkBase_aligned arch
      have hmapped := hc (pageOf x) (by unfold pageOf pageSize at *; omega) (by unfold pageOf pageSize at *; omega)
        (by unfold pageOf; omega) (by unfold pageOf pageSize at *; omega)
      rw [hmapped] at hnone
      cases hnone

theorem munmap_sound (h : RegionsInv arch bound other rest w) {addr len : Nat}
    (hs : w.step arch (.munmap addr len) = some (r, w')) : RegionsInv arch bound other rest w' := by
  simp only [Regions.step, Option.bind_eq_bind, Option.bind_eq_some_iff] at hs
  obtain ⟨⟨r₁, p, m⟩, he, hs⟩ := hs
  cases hs
  refine ⟨(munmap_stays h.fenced he).fenced, fun a ha => ?_⟩
  unfold Process.munmap at he
  split at he
  · cases he
    simp only [show ¬ ((-22 : Int) = 0) by decide, if_false] at ha
    exact h.live a ha
  split at he
  · cases he
    simp only [show ¬ ((-22 : Int) = 0) by decide, if_false] at ha
    exact h.live a ha
  rename_i rounded hround
  simp only [Option.bind_eq_bind, Option.bind_eq_some_iff] at he
  obtain ⟨⟨r₂, space, m₁⟩, he₁, he⟩ := he
  cases r₂ with
  | error e =>
    cases he
    cases unmapRange_error he₁
    simp only [show ¬ ((-22 : Int) = 0) by decide, if_false] at ha
    exact h.live a ha
  | ok _ =>
    cases he
    simp only [if_true, List.mem_filter, Bool.not_eq_true', Bool.and_eq_false_iff, decide_eq_false_iff_not] at ha
    refine unmapRange_contains he₁ (h.live a ha.1) ?_
    rw [roundUp_eq hround]
    omega

theorem brk_sound (hb : bound ≤ 2 ^ 36) (h : RegionsInv arch bound other rest w) {addr : Nat}
    (hc : w.Careful arch (.brk addr)) (hs : w.step arch (.brk addr) = some (r, w')) :
    RegionsInv arch bound other rest w' ∧ w.Sound arch r w' (.brk addr) := by
  simp only [Regions.step, Option.bind_eq_bind, Option.bind_eq_some_iff] at hs
  obtain ⟨⟨r₁, p, m⟩, he, hs⟩ := hs
  cases hs
  have hstays := sysBrk_stays hb h.fenced he
  unfold Process.sysBrk at he
  generalize hq : (if w.proc.brk = 0 then { w.proc with brk := arch.brkBase } else w.proc) = q at he
  have hspace : q.space = w.proc.space := by
    subst hq
    split <;> rfl
  have hbrk : q.brk = w.currentBreak arch := by
    subst hq
    unfold Regions.currentBreak
    split <;> rfl
  dsimp only at he
  split at he
  · cases he
    refine ⟨⟨hstays.fenced, fun a ha => by rw [hspace]; exact h.live a ha⟩, fun hlt _ => ?_⟩
    omega
  split at he
  · cases he
    refine ⟨⟨hstays.fenced, fun a ha => by rw [hspace]; exact h.live a ha⟩, fun hlt hr => ?_⟩
    omega
  rename_i pageEnd hend
  simp only [Option.bind_eq_bind, Option.bind_eq_some_iff] at he
  obtain ⟨⟨r₂, space, m₁⟩, he₁, he⟩ := he
  rw [hspace] at he₁
  have hlive : ∀ a ∈ w.live, space.pages.contains a = true := fun a ha => growPages_contains _ he₁ (h.live a ha)
  cases r₂ with
  | error e =>
    cases he
    refine ⟨⟨hstays.fenced, hlive⟩, fun hlt hr => ?_⟩
    omega
  | ok _ =>
    cases he
    have hgranted : stepBy ((q.brk + (pageSize - 1)) / pageSize * pageSize) pageEnd = w.granted arch addr := by
      rw [hbrk, roundUp_eq hend]
      rfl
    rw [hgranted] at he₁
    obtain ⟨-, hzero⟩ := growPages_zero hb _ h.fenced (List.Nodup.of_map _ (stepBy_nodup _ _)) hc he₁
    refine ⟨⟨hstays.fenced, hlive⟩, fun _ _ a ha => ⟨fun hin => ?_, ?_⟩⟩
    · have hnone := hc a ha
      rw [h.live a hin] at hnone
      cases hnone
    · obtain ⟨page, hp, hmem⟩ := hzero a ha
      refine ⟨page, hp, hmem, fun va pa flags hva ht => ?_⟩
      obtain ⟨own, -, hkey, tables, hspans, -⟩ := hstays.fenced
      have hlim := (hkey hp).2
      have hlt : va < arch.userAddressLimit := by
        have hmul : arch.userAddressLimit % pageSize = 0 := by cases arch <;> decide
        unfold pageOf pageSize at *
        omega
      obtain ⟨f, hf, rfl⟩ := hspans.translate hlt ht
      obtain ⟨page', hp', rfl⟩ := get_of_maps hf
      rw [div_mul_pageSize, hva] at hp'
      have heq : page = page' := Option.some.inj (hp.symm.trans hp')
      rw [heq]

theorem step_sound (hb : bound ≤ 2 ^ 36) (h : RegionsInv arch bound other rest w) {c : RegionCall}
    (hc : w.Careful arch c) (hs : w.step arch c = some (r, w')) :
    RegionsInv arch bound other rest w' ∧ w.Sound arch r w' c := by
  cases c with
  | mmap address length prot flags file => exact mmap_sound hb h hc hs
  | munmap addr len => exact ⟨munmap_sound h hs, trivial⟩
  | brk addr => exact brk_sound hb h hc hs
  | store vaddr words =>
    cases hs
    exact ⟨⟨(store_call_stays h.fenced vaddr words).fenced, h.live⟩, trivial⟩

theorem run_sound (hb : bound ≤ 2 ^ 36) (cs : List RegionCall) : ∀ {w : Regions}, RegionsInv arch bound other rest w →
    w.CarefulRun arch cs → w.SoundRun arch cs := by
  induction cs with
  | nil => exact fun _ _ => trivial
  | cons c cs ih =>
    intro w h hc r w' hs
    obtain ⟨h', hsound⟩ := step_sound hb h hc.1 hs
    exact ⟨hsound, ih h' (hc.2 r w' hs)⟩

/-- A process whose regions are counted from now on. -/
def Regions.start (w : System) (p : Process) : Regions := ⟨p, (w.onCpu p).machine, []⟩

/-- **The heap and the mapped regions are disjoint**: whatever led to the process, in every careful run of its calls no
page that `brk` grants belongs to a live region and each reads as zero, and no range that `mmap` returns meets a live
region or the heap. -/
theorem regions_disjoint (arch : Arch) {m₀ : Machine} (halloc : Frame.Reach m₀.mem.frames other)
    (hbelow : ∀ r ∈ m₀.mem.frames.regions, r.startPpn + r.frames ≤ 2 ^ 36) (events : List Event)
    (hcareful : System.CarefulRun arch ⟨m₀, [], []⟩ events) {rs : List Int} {w : System}
    (hrun : System.run arch ⟨m₀, [], []⟩ events = some (rs, w)) {i : Nat} {p : Process} (hp : w.procs[i]? = some p)
    (cs : List RegionCall) (hcs : (Regions.start w p).CarefulRun arch cs) : (Regions.start w p).SoundRun arch cs := by
  have hpool : Pool (2 ^ 36) m₀.mem.frames [] other := ⟨halloc.inv, hbelow⟩
  have hinit : Separated arch (2 ^ 36) other ⟨m₀, [], []⟩ [] [] := ⟨rfl, nofun, hpool, nofun⟩
  obtain ⟨own, lost, h⟩ := run_separated (Nat.le_refl _) events hinit hcareful hrun
  obtain ⟨frames, hframes⟩ := h.exists_own hp
  have hfenced := (h.fences hp hframes).fenced (h.focus hframes)
  exact run_sound (Nat.le_refl _) cs ⟨hfenced, nofun⟩ hcs

end Run

/-! ## Runs of one process -/

def regionCalls : List RegionCall := [.mmap 0 0x1000 3 0x22 (.error 0), .brk 0x1_0001_2000]

/-- On riscv64 a page is mapped and the heap grows by two. -/
theorem regions_disjoint_sample :
    ∃ rs w p, System.run .riscv64 ⟨freshMachine, [], []⟩ [.init (sampleImage 0xf_ffff_f000)] = some (rs, w) ∧
      w.procs[0]? = some p ∧ (Regions.start w p).SoundRun .riscv64 regionCalls ∧
      ((Regions.start w p).step .riscv64 (.mmap 0 0x1000 3 0x22 (.error 0))).any (fun x =>
        x.1 == 0x20_0000_0000 && (x.2.step .riscv64 (.brk 0x1_0001_2000)).any fun y => y.1 == 0x1_0001_2000) = true := by
  have hok : ((System.run .riscv64 ⟨freshMachine, [], []⟩ [.init (sampleImage 0xf_ffff_f000)]).any fun x =>
      (x.2.procs[0]?).any fun p => p.brk == 0 &&
        (((Regions.start x.2 p).step .riscv64 (.mmap 0 0x1000 3 0x22 (.error 0))).any fun x =>
          x.1 == 0x20_0000_0000 && (x.2.step .riscv64 (.brk 0x1_0001_2000)).any fun y => y.1 == 0x1_0001_2000) &&
        ((Regions.start x.2 p).step .riscv64 (.mmap 0 0x1000 3 0x22 (.error 0))).all fun x =>
          (x.2.granted .riscv64 0x1_0001_2000).all fun a => !x.2.proc.space.pages.contains a) = true := by
    decide +kernel
  obtain ⟨⟨rs, w⟩, hrun, hok⟩ := (Option.any_eq_true _ _).1 hok
  obtain ⟨p, hp, hok⟩ := (Option.any_eq_true _ _).1 hok
  simp only [Bool.and_eq_true, beq_iff_eq] at hok
  obtain ⟨⟨hbrk, hreturns⟩, hfree⟩ := hok
  have hadd : FrameAllocator.new.addRegion 0x1000 0x20000 = some freshMachine.mem.frames := rfl
  have hreach : Frame.Reach freshMachine.mem.frames [] := .add .new (by decide) (by decide) hadd
  have hup : UpperEmpty .riscv64 freshMachine := fun i h₁ h₂ => absurd h₂ (Nat.not_lt.2 h₁)
  have hcareful : (Regions.start w p).CarefulRun .riscv64 regionCalls := by
    refine ⟨fun a _ _ hlt _ => ?_, fun r w' hs => ⟨fun a ha => ?_, fun _ _ _ => trivial⟩⟩
    · have hzero : (Regions.start w p).proc.brk = 0 := hbrk
      omega
    · rw [Option.all_eq_true] at hfree
      simpa using List.all_eq_true.1 (hfree _ hs) a ha
  refine ⟨rs, w, p, hrun, hp, ?_, by simpa using hreturns⟩
  have hboot : System.CarefulRun .riscv64 ⟨freshMachine, [], []⟩ [.init (sampleImage 0xf_ffff_f000)] :=
    ⟨hup, fun _ _ _ => trivial⟩
  exact regions_disjoint .riscv64 hreach (by decide) _ hboot hrun hp regionCalls hcareful

/-- The state after some calls. -/
def runCalls (arch : Arch) (w : Regions) : List RegionCall → Option Regions
  | [] => some w
  | c :: cs => (w.step arch c).bind fun x => runCalls arch x.2 cs

/-- On aarch64 a mapping of 16 MiB that fails for want of memory moves the cursor of `mmap` to the start of the heap; the
next mapping is put there, and then `brk` grants it. -/
theorem brk_grants_mapped :
    ∃ rs w p w₂ w₃, System.run .aarch64 ⟨freshMachine, [], []⟩ [.init (sampleImage 0x7f_ffff_f000)] = some (rs, w) ∧
      w.procs[0]? = some p ∧
      runCalls .aarch64 (Regions.start w p)
        [.mmap 0 0x100_0000 3 0x22 (.error 0), .mmap 0 0x1000 3 0x22 (.error 0)] = some w₂ ∧
      0x80_0100_0000 ∈ w₂.live ∧ w₂.step .aarch64 (.brk 0x80_0100_1000) = some (0x80_0100_1000, w₃) ∧
      ¬ w₂.Sound .aarch64 0x80_0100_1000 w₃ (.brk 0x80_0100_1000) := by
  have hok : ((System.run .aarch64 ⟨freshMachine, [], []⟩ [.init (sampleImage 0x7f_ffff_f000)]).any fun x =>
      (x.2.procs[0]?).any fun p => (runCalls .aarch64 (Regions.start x.2 p)
        [.mmap 0 0x100_0000 3 0x22 (.error 0), .mmap 0 0x1000 3 0x22 (.error 0)]).any fun w₂ =>
          w₂.live.contains 0x80_0100_0000 && (w₂.granted .aarch64 0x80_0100_1000).contains 0x80_0100_0000 &&
          decide (w₂.currentBreak .aarch64 < 0x80_0100_1000) &&
          (w₂.step .aarch64 (.brk 0x80_0100_1000)).any fun x => x.1 == 0x80_0100_1000) = true := by
    decide +kernel
  obtain ⟨⟨rs, w⟩, hrun, hok⟩ := (Option.any_eq_true _ _).1 hok
  obtain ⟨p, hp, hok⟩ := (Option.any_eq_true _ _).1 hok
  obtain ⟨w₂, hw₂, hok⟩ := (Option.any_eq_true _ _).1 hok
  simp only [Bool.and_eq_true, List.contains_iff_mem, decide_eq_true_eq] at hok
  obtain ⟨⟨⟨hlive, hgranted⟩, hlt⟩, hbrk⟩ := hok
  obtain ⟨⟨r, w₃⟩, hs, hr⟩ := (Option.any_eq_true _ _).1 hbrk
  obtain rfl : r = 0x80_0100_1000 := by simpa using hr
  refine ⟨rs, w, p, w₂, w₃, hrun, hp, hw₂, hlive, hs, fun hsound => ?_⟩
  exact (hsound hlt rfl _ hgranted).1 hlive

end Koros.Mm
