import Koros.Mmu.PageTable
import Koros.Frame.Single
import Mathlib.Tactic.Ring

/-!
# The shape of a page table

A page table is described by its tables, `T l p` for the table of level `l` that covers region `p`. `Outline` is what the
hardware sees of it: table entries point to the tables one level down, and the words of the level-0 tables are `W`, whatever
they are. In `Rep` the words are those of mapped pages, `P v` for virtual page number `v`, everything else is zero, and a
present leaf has metadata.

The engine changes the description by three moves: `addTable`, `setWord` or `setLeaf`, `removeTable`.
-/
set_option autoImplicit false

namespace Koros.Mmu

open Koros.Frame

/-! ## Regions -/

/-- The region of level `l` that holds page `v`: 512 regions of level `l` make one of level `l + 1`. -/
def region (l v : Nat) : Nat := v / 512 ^ l

@[simp] theorem region_zero (v : Nat) : region 0 v = v := by simp [region]

theorem region_succ (l v : Nat) : region (l + 1) v = region l v / 512 := by
  rw [region, region, Nat.pow_succ, Nat.div_div_eq_div_mul]

theorem region_split (l v : Nat) : region (l + 1) v * 512 + region l v % 512 = region l v := by
  rw [region_succ]
  exact Nat.div_add_mod' _ _

theorem two_pow_region (l : Nat) : 2 ^ (12 + 9 * l) = pageSize * 512 ^ l := by
  rw [Nat.pow_add, Nat.pow_mul]
  rfl

theorem span_eq (l : Nat) : span l = pageSize * 512 ^ l := by
  rw [span, Nat.one_shiftLeft, two_pow_region]

theorem tableIndex_eq (va l : Nat) : tableIndex va l = region l (va / pageSize) % 512 := by
  have hand : ∀ x, x &&& 0x1ff = x % 512 := fun x => Nat.and_two_pow_sub_one_eq_mod x 9
  rw [tableIndex, hand, Nat.shiftRight_eq_div_pow, two_pow_region, region, Nat.div_div_eq_div_mul]

theorem tableIndex_lt (va l : Nat) : tableIndex va l < 512 := by
  rw [tableIndex_eq]
  exact Nat.mod_lt _ (by decide)

/-! ## Frames that an entry can carry -/

/-- A page-aligned physical address within reach of an entry. -/
def FrameOk (phys : Nat) : Prop := phys % pageSize = 0 ∧ phys < physLimit

theorem FrameOk.exists_shift {phys : Nat} (h : FrameOk phys) : ∃ q < 2 ^ 36, phys = q <<< 12 := by
  refine ⟨phys / pageSize, ?_, ?_⟩
  · have := h.2
    unfold physLimit at this
    unfold pageSize
    omega
  · have := h.1
    rw [Nat.shiftLeft_eq]
    unfold pageSize at *
    omega

/-- A page whose descriptor exists. -/
def TableOk (phys : Nat) : Prop := phys % pageSize = 0 ∧ phys / pageSize < maxDescriptors

theorem TableOk.frameOk {phys : Nat} (h : TableOk phys) : FrameOk phys := by
  refine ⟨h.1, ?_⟩
  have := h.2
  unfold maxDescriptors maxTrackedFrames at this
  unfold physLimit pageSize at *
  omega

theorem TableOk.descriptorOf {phys : Nat} (h : TableOk phys) : Memory.descriptorOf phys = some (phys / pageSize) :=
  if_pos h

theorem TableOk.lockPage {phys : Nat} (h : TableOk phys) : Memory.lockPage phys = some () := by
  rw [Memory.lockPage, h.descriptorOf]
  rfl

theorem tableOk_of_lockPage {phys : Nat} (h : Memory.lockPage phys ≠ none) : TableOk phys := by
  by_contra hno
  have hd : Memory.descriptorOf phys = none := if_neg hno
  rw [Memory.lockPage, hd] at h
  exact h rfl

/-- Distinct pages have distinct frame numbers. -/
theorem div_ne_of_aligned {f g : Nat} (hf : f % pageSize = 0) (hg : g % pageSize = 0) (hne : f ≠ g) :
    f / pageSize ≠ g / pageSize := by
  unfold pageSize at *
  omega

/-- Frames below frame number `2 ^ 36` are within reach of an entry. -/
theorem FrameOk.of_placed {p bound : Nat} (hb : bound ≤ 2 ^ 36) (h : p % pageSize = 0 ∧ p / pageSize < bound) : FrameOk p := by
  refine ⟨h.1, ?_⟩
  have := h.2
  unfold physLimit
  unfold pageSize at *
  omega

namespace PteFormat.Lawful

variable {F : PteFormat} (hF : F.Lawful) {phys : Nat} (hp : FrameOk phys)

include hF hp

theorem present_table : F.entryPresent (F.tableEntry phys) = true := by
  obtain ⟨q, hq, rfl⟩ := hp.exists_shift
  exact hF.table_present q hq

theorem not_leaf_table (level : Nat) : F.entryIsLeaf (F.tableEntry phys) (level + 1) = false := by
  obtain ⟨q, hq, rfl⟩ := hp.exists_shift
  exact hF.table_not_leaf q hq level

theorem phys_table (level : Nat) : F.entryPhys (F.tableEntry phys) level = phys := by
  obtain ⟨q, hq, rfl⟩ := hp.exists_shift
  exact hF.table_phys q hq level

theorem table_ne_zero : F.tableEntry phys ≠ 0 := by
  intro h
  have := hF.present_table hp
  rw [h, hF.present_zero] at this
  cases this

variable (flags : MappingFlags)

theorem present_leaf : F.entryPresent (F.leafEntry phys flags 0) = true := by
  obtain ⟨q, hq, rfl⟩ := hp.exists_shift
  exact hF.leaf_present q hq flags

theorem isLeaf_leaf : F.entryIsLeaf (F.leafEntry phys flags 0) 0 = F.encodes flags := by
  obtain ⟨q, hq, rfl⟩ := hp.exists_shift
  exact hF.leaf_isLeaf q hq flags

theorem phys_leaf (level : Nat) : F.entryPhys (F.leafEntry phys flags 0) level = phys := by
  obtain ⟨q, hq, rfl⟩ := hp.exists_shift
  exact hF.leaf_phys q hq flags level

theorem flags_leaf : F.entryFlags (F.leafEntry phys flags 0) = F.granted flags := by
  obtain ⟨q, hq, rfl⟩ := hp.exists_shift
  exact hF.leaf_flags q hq flags

theorem leaf_ne_zero : F.leafEntry phys flags 0 ≠ 0 := by
  intro h
  have := hF.present_leaf hp flags
  rw [h, hF.present_zero] at this
  cases this

end PteFormat.Lawful

/-! ## The description -/

/-- The table of each level and region. -/
abbrev Tables := (level region : Nat) → Option Nat

/-- The frame and flags of each mapped page. -/
abbrev Pages := (vpn : Nat) → Option (Nat × MappingFlags)

def Tables.set (T : Tables) (l p : Nat) (x : Option Nat) : Tables := fun l' p' => if l' = l ∧ p' = p then x else T l' p'

theorem Tables.set_self (T : Tables) (l p : Nat) (x : Option Nat) : T.set l p x l p = x := by simp [Tables.set]

theorem Tables.set_of_ne (T : Tables) {l p l' p' : Nat} (x : Option Nat) (h : ¬ (l' = l ∧ p' = p)) :
    T.set l p x l' p' = T l' p' := by simp [Tables.set, h]

theorem Tables.set_some_cases {T : Tables} {l p child l' p' f : Nat} (h : T.set l p (some child) l' p' = some f) :
    T l' p' = some f ∨ f = child ∧ l' = l ∧ p' = p := by
  by_cases hk : l' = l ∧ p' = p
  · obtain ⟨rfl, rfl⟩ := hk
    rw [Tables.set_self] at h
    exact Or.inr ⟨(Option.some.inj h).symm, rfl, rfl⟩
  · rw [Tables.set_of_ne T _ hk] at h
    exact Or.inl h

theorem Tables.set_none_cases {T : Tables} {l p l' p' f : Nat} (h : T.set l p none l' p' = some f) :
    ¬ (l' = l ∧ p' = p) ∧ T l' p' = some f := by
  by_cases hk : l' = l ∧ p' = p
  · obtain ⟨rfl, rfl⟩ := hk
    rw [Tables.set_self] at h
    cases h
  · rw [Tables.set_of_ne T _ hk] at h
    exact ⟨hk, h⟩

theorem Tables.set_keep {T : Tables} {l p l' p' f : Nat} {x : Option Nat} (hnone : T l p = none) (h : T l' p' = some f) :
    T.set l p x l' p' = some f := by
  rw [Tables.set_of_ne T]
  · exact h
  · rintro ⟨rfl, rfl⟩
    rw [hnone] at h
    cases h

/-- The frames of the tables. -/
def Lists (T : Tables) (tables : List Nat) : Prop := ∀ f, f ∈ tables ↔ ∃ l p, T l p = some f

theorem Lists.add {T : Tables} {tables : List Nat} (hT : Lists T tables) {l k child : Nat} (hnone : T l k = none) :
    Lists (T.set l k (some child)) (child :: tables) := by
  intro f
  rw [List.mem_cons, hT f]
  constructor
  · rintro (rfl | ⟨l', p', hf⟩)
    · exact ⟨l, k, Tables.set_self ..⟩
    · exact ⟨l', p', Tables.set_keep hnone hf⟩
  · rintro ⟨l', p', hf⟩
    rcases Tables.set_some_cases hf with hf | ⟨rfl, -, -⟩
    · exact Or.inr ⟨_, _, hf⟩
    · exact Or.inl rfl

/-- A root alone. -/
theorem Lists.root (l root : Nat) : Lists (Tables.set (fun _ _ => none) l 0 (some root)) [root] := by
  intro f
  rw [List.mem_singleton]
  constructor
  · rintro rfl
    exact ⟨l, 0, Tables.set_self ..⟩
  · rintro ⟨l', p', hf⟩
    exact ((Tables.set_some_cases hf).resolve_left nofun).1

namespace PteFormat

/-- Level of the root table. -/
def top (F : PteFormat) : Nat := F.levels - 1

/-- The entry that points to a table, if there is one. -/
def tableWord (F : PteFormat) : Option Nat → Nat
  | some child => F.tableEntry child
  | none => 0

/-- The entry that maps a page, if it is mapped. -/
def leafWord (F : PteFormat) : Option (Nat × MappingFlags) → Nat
  | some (phys, flags) => F.leafEntry phys flags 0
  | none => 0

end PteFormat

/-- Status of entry `i` of the table page `f`. -/
def Memory.stat (s : Memory) (f i : Nat) : PageStatus :=
  match s.metadata (f / pageSize) with
  | none => .invalid
  | some array => array i

theorem Memory.status_eq (s : Memory) {f : Nat} (h : TableOk f) (i : Nat) : s.status f i = some (s.stat f i) := by
  rw [Memory.status, h.descriptorOf]
  rfl

/-- Virtual page numbers translated by the lower half of the root. -/
def Low (F : PteFormat) (v : Nat) : Prop := v < 256 * 512 ^ F.top

/-- The entries of a root that it shares with no other. -/
def lowerHalf (i : Nat) : Prop := i < 256

/-- Virtual page numbers translated by the entries `E` of the root. -/
def Own (F : PteFormat) (E : Nat → Prop) (v : Nat) : Prop := region F.top v < 512 ∧ E (region F.top v)

theorem own_lowerHalf {F : PteFormat} {v : Nat} : Own F lowerHalf v ↔ Low F v := by
  have hlt : region F.top v < 256 ↔ v < 256 * 512 ^ F.top := Nat.div_lt_iff_lt_mul (Nat.pow_pos (by decide))
  exact ⟨fun h => hlt.1 h.2, fun h => ⟨Nat.lt_trans (hlt.2 h) (by decide), hlt.2 h⟩⟩

theorem Low.own {F : PteFormat} {v : Nat} (h : Low F v) : Own F lowerHalf v := own_lowerHalf.2 h

/-- The hardware reads the entries of the pages as leaves. -/
def Encoded (F : PteFormat) (P : Pages) : Prop := ∀ v phys flags, P v = some (phys, flags) → F.encodes flags

theorem Encoded.update {F : PteFormat} {P : Pages} (h : Encoded F P) {v : Nat} {x : Option (Nat × MappingFlags)}
    (hx : ∀ phys flags, x = some (phys, flags) → F.encodes flags) : Encoded F (Function.update P v x) := by
  intro w phys flags hw
  by_cases hv : w = v
  · rw [hv, Function.update_self] at hw
    exact hx phys flags hw
  · rw [Function.update_of_ne hv] at hw
    exact h w phys flags hw

/-- The page table with root `root` has the tables `T` and the level-0 words `W`, as far as the entries `E` of the root lead. -/
structure Outline (F : PteFormat) (E : Nat → Prop) (root : Nat) (s : Memory) (T : Tables) (W : Nat → Nat) : Prop where
  root_eq : T F.top 0 = some root
  bounded : ∀ {l p f : Nat}, T l p = some f → l ≤ F.top ∧ (l = F.top → p = 0)
  inj : ∀ {l p l' p' f : Nat}, T l p = some f → T l' p' = some f → l = l' ∧ p = p'
  frameOk : ∀ {l p f : Nat}, T l p = some f → FrameOk f
  parent : ∀ {l p : Nat}, T l p ≠ none → l < F.top → T (l + 1) (p / 512) ≠ none
  wordParent : ∀ {v : Nat}, W v ≠ 0 → T 0 (v / 512) ≠ none
  entry : ∀ {l p f : Nat}, T (l + 1) p = some f → ∀ i < 512, (l + 1 = F.top → E i) →
    s.mem f i = F.tableWord (T l (p * 512 + i))
  leaf : ∀ {p f : Nat}, T 0 p = some f → ∀ i < 512, s.mem f i = W (p * 512 + i)

theorem mem_setEntry (s : Memory) (page i e f j : Nat) :
    (s.setEntry page i e).mem f j = if f = page ∧ j = i then e else s.mem f j := by
  unfold Memory.setEntry
  by_cases hf : f = page
  · subst hf
    by_cases hj : j = i
    · subst hj; simp
    · simp [hj]
  · simp [hf]

theorem mem_zeroPage (s : Memory) (page f j : Nat) : (s.zeroPage page).mem f j = if f = page then 0 else s.mem f j := by
  unfold Memory.zeroPage
  by_cases hf : f = page
  · subst hf; simp
  · simp [hf]

/-- An entry's place determines its table and its index. -/
theorem key_inj {p p' i i' : Nat} (hi : i < 512) (hi' : i' < 512) (h : p' * 512 + i' = p * 512 + i) : p' = p ∧ i' = i := by
  omega

namespace Outline

variable {F : PteFormat} {E : Nat → Prop} {root : Nat} {s s' : Memory} {T : Tables} {W : Nat → Nat}

theorem congr (h : Outline F E root s T W) (hs : ∀ {l p f : Nat}, T l p = some f → s'.mem f = s.mem f) :
    Outline F E root s' T W := by
  refine { h with entry := ?_, leaf := ?_ }
  · intro l p f hf i hi hhalf
    rw [hs hf]
    exact h.entry hf i hi hhalf
  · intro p f hf i hi
    rw [hs hf]
    exact h.leaf hf i hi

theorem none_below (h : Outline F E root s T W) {l k : Nat} (hnone : T (l + 1) k = none) (hl : l < F.top) {i : Nat}
    (hi : i < 512) : T l (k * 512 + i) = none := by
  by_contra hne
  apply h.parent hne hl
  rw [show (k * 512 + i) / 512 = k by omega]
  exact hnone

theorem word_zero_below (h : Outline F E root s T W) {k : Nat} (hnone : T 0 k = none) {i : Nat} (hi : i < 512) :
    W (k * 512 + i) = 0 := by
  by_contra hne
  apply h.wordParent hne
  rw [show (k * 512 + i) / 512 = k by omega]
  exact hnone

/-- An empty table is linked into a region that had none. -/
theorem addTable (h : Outline F E root s T W) {l p page i child : Nat} (hpage : T (l + 1) p = some page) (hi : i < 512)
    (hnone : T l (p * 512 + i) = none) (hchild : FrameOk child) (hfresh : ∀ l p, T l p ≠ some child)
    (hmem : ∀ f j, s'.mem f j = if f = page ∧ j = i then F.tableEntry child else if f = child then 0 else s.mem f j) :
    Outline F E root s' (T.set l (p * 512 + i) (some child)) W := by
  obtain ⟨hltop, hptop⟩ := h.bounded hpage
  have hpc : page ≠ child := by rintro rfl; exact hfresh _ _ hpage
  have hcases : ∀ {l' p' f : Nat}, T.set l (p * 512 + i) (some child) l' p' = some f →
      (l' = l ∧ p' = p * 512 + i ∧ f = child) ∨ (T l' p' = some f ∧ f ≠ child) := by
    intro l' p' f hf
    rcases Tables.set_some_cases hf with hold | ⟨hnew, hl, hp⟩
    · exact Or.inr ⟨hold, by rintro rfl; exact hfresh _ _ hold⟩
    · exact Or.inl ⟨hl, hp, hnew⟩
  have hkeep : ∀ {l' p' : Nat}, T l' p' ≠ none → T.set l (p * 512 + i) (some child) l' p' ≠ none := by
    intro l' p' hne
    obtain ⟨f, hf⟩ := Option.ne_none_iff_exists'.1 hne
    rw [Tables.set_keep hnone hf]
    simp
  constructor
  case root_eq => exact Tables.set_keep hnone h.root_eq
  case bounded =>
    intro l' p' f hset
    rcases hcases hset with ⟨rfl, rfl, rfl⟩ | ⟨hf, -⟩
    · exact ⟨by omega, by omega⟩
    · exact h.bounded hf
  case inj =>
    intro l₁ p₁ l₂ p₂ f h₁ h₂
    rcases hcases h₁ with ⟨rfl, rfl, rfl⟩ | ⟨h₁, hne₁⟩ <;> rcases hcases h₂ with ⟨rfl, rfl, he⟩ | ⟨h₂, hne₂⟩
    · exact ⟨rfl, rfl⟩
    · exact absurd rfl hne₂
    · exact absurd he hne₁
    · exact h.inj h₁ h₂
  case frameOk =>
    intro l' p' f hset
    rcases hcases hset with ⟨rfl, rfl, rfl⟩ | ⟨hf, -⟩
    · exact hchild
    · exact h.frameOk hf
  case parent =>
    intro l' p' hne hl'
    apply hkeep
    obtain ⟨f, hf⟩ := Option.ne_none_iff_exists'.1 hne
    rcases hcases hf with ⟨rfl, rfl, rfl⟩ | ⟨hf, -⟩
    · rw [show (p * 512 + i) / 512 = p by omega, hpage]
      simp
    · exact h.parent (by rw [hf]; simp) hl'
  case wordParent => intro v hv; exact hkeep (h.wordParent hv)
  case entry =>
    intro l' p' f hset i' hi' hhalf'
    rw [hmem]
    rcases hcases hset with ⟨hl', rfl, rfl⟩ | ⟨hf, hne⟩
    · rw [if_neg (by rintro ⟨rfl, -⟩; exact hpc rfl), if_pos rfl, Tables.set_of_ne T _ (by omega)]
      subst hl'
      rw [h.none_below hnone (by omega) hi']
      rfl
    · rw [if_neg hne]
      by_cases hfp : f = page ∧ i' = i
      · obtain ⟨rfl, rfl⟩ := hfp
        obtain ⟨hl', rfl⟩ := h.inj hf hpage
        obtain rfl : l' = l := by omega
        rw [if_pos ⟨rfl, rfl⟩, Tables.set_self]
        rfl
      · rw [if_neg hfp, Tables.set_of_ne T _ ?_]
        · exact h.entry hf i' hi' hhalf'
        · rintro ⟨rfl, he⟩
          obtain ⟨rfl, rfl⟩ := key_inj hi hi' he
          rw [hpage] at hf
          exact hfp ⟨(Option.some.inj hf).symm, rfl⟩
  case leaf =>
    intro p' f hset i' hi'
    rw [hmem]
    rcases hcases hset with ⟨rfl, rfl, rfl⟩ | ⟨hf, hne⟩
    · rw [if_neg (by rintro ⟨rfl, -⟩; exact hpc rfl), if_pos rfl, h.word_zero_below hnone hi']
    · rw [if_neg hne, if_neg ?_]
      · exact h.leaf hf i' hi'
      · rintro ⟨rfl, -⟩
        have := (h.inj hf hpage).1
        omega

/-- A word of a level-0 table is written. -/
theorem setWord (h : Outline F E root s T W) {p page i w : Nat} (hpage : T 0 p = some page) (hi : i < 512)
    (hmem : ∀ f j, s'.mem f j = if f = page ∧ j = i then w else s.mem f j) :
    Outline F E root s' T (Function.update W (p * 512 + i) w) := by
  refine { h with wordParent := ?_, entry := ?_, leaf := ?_ }
  · intro v hv
    by_cases hk : v = p * 512 + i
    · rw [hk, show (p * 512 + i) / 512 = p by omega, hpage]
      simp
    · rw [Function.update_of_ne hk] at hv
      exact h.wordParent hv
  · intro l p' f hf i' hi' hhalf
    rw [hmem, if_neg]
    · exact h.entry hf i' hi' hhalf
    · rintro ⟨rfl, -⟩
      have := (h.inj hf hpage).1
      omega
  · intro p' f hf i' hi'
    rw [hmem]
    by_cases hfp : f = page ∧ i' = i
    · obtain ⟨rfl, rfl⟩ := hfp
      obtain ⟨-, rfl⟩ := h.inj hf hpage
      rw [if_pos ⟨rfl, rfl⟩, Function.update_self]
    · rw [if_neg hfp, Function.update_of_ne ?_]
      · exact h.leaf hf i' hi'
      · intro he
        obtain ⟨rfl, rfl⟩ := key_inj hi hi' he
        rw [hpage] at hf
        exact hfp ⟨(Option.some.inj hf).symm, rfl⟩

/-- A table without entries is unlinked. -/
theorem removeTable (hF : F.Lawful) (h : Outline F E root s T W) {l p page i child : Nat}
    (hpage : T (l + 1) p = some page) (hi : i < 512) (hchild : T l (p * 512 + i) = some child)
    (hempty : ∀ j < 512, s.mem child j = 0) (hmem : ∀ f j, s'.mem f j = if f = page ∧ j = i then 0 else s.mem f j) :
    Outline F E root s' (T.set l (p * 512 + i) none) W := by
  obtain ⟨hltop, -⟩ := h.bounded hpage
  have hcases : ∀ {l' p' f : Nat}, T.set l (p * 512 + i) none l' p' = some f → T l' p' = some f := fun hf =>
    (Tables.set_none_cases hf).2
  constructor
  case root_eq =>
    rw [Tables.set_of_ne T _ (by omega)]
    exact h.root_eq
  case bounded => intro l' p' f hf; exact h.bounded (hcases hf)
  case inj => intro l₁ p₁ l₂ p₂ f h₁ h₂; exact h.inj (hcases h₁) (hcases h₂)
  case frameOk => intro l' p' f hf; exact h.frameOk (hcases hf)
  case parent =>
    intro l' p' hne hl'
    obtain ⟨f, hset⟩ := Option.ne_none_iff_exists'.1 hne
    have hf := hcases hset
    rw [Tables.set_of_ne T _ ?_]
    · exact h.parent (by rw [hf]; simp) hl'
    · -- the removed table would have an entry for this one
      rintro ⟨rfl, hp'⟩
      have he := h.entry hchild (p' % 512) (Nat.mod_lt _ (by decide)) (by omega)
      rw [hempty _ (Nat.mod_lt _ (by decide)), ← hp', Nat.div_add_mod', hf] at he
      exact hF.table_ne_zero (h.frameOk hf) he.symm
  case wordParent =>
    intro v hv
    rw [Tables.set_of_ne T _ ?_]
    · exact h.wordParent hv
    · rintro ⟨rfl, hv'⟩
      have he := h.leaf hchild (v % 512) (Nat.mod_lt _ (by decide))
      rw [hempty _ (Nat.mod_lt _ (by decide)), ← hv', Nat.div_add_mod'] at he
      exact hv he.symm
  case entry =>
    intro l' p' f hset i' hi' hhalf'
    have hf := hcases hset
    rw [hmem]
    by_cases hfp : f = page ∧ i' = i
    · obtain ⟨rfl, rfl⟩ := hfp
      obtain ⟨hl', rfl⟩ := h.inj hf hpage
      obtain rfl : l' = l := by omega
      rw [if_pos ⟨rfl, rfl⟩, Tables.set_self]
      rfl
    · rw [if_neg hfp, Tables.set_of_ne T _ ?_]
      · exact h.entry hf i' hi' hhalf'
      · rintro ⟨rfl, he⟩
        obtain ⟨rfl, rfl⟩ := key_inj hi hi' he
        rw [hpage] at hf
        exact hfp ⟨(Option.some.inj hf).symm, rfl⟩
  case leaf =>
    intro p' f hset i' hi'
    have hf := hcases hset
    rw [hmem, if_neg]
    · exact h.leaf hf i' hi'
    · rintro ⟨rfl, -⟩
      have := (h.inj hf hpage).1
      omega

/-- A root whose entries are zero has no other table. -/
theorem new (htop : 0 < F.top) (hroot : FrameOk root) (hmem : ∀ i < 512, E i → s.mem root i = 0) :
    Outline F E root s (Tables.set (fun _ _ => none) F.top 0 (some root)) fun _ => 0 := by
  have hT : ∀ {l p f : Nat}, Tables.set (fun _ _ => none) F.top 0 (some root) l p = some f →
      f = root ∧ l = F.top ∧ p = 0 := fun hf => (Tables.set_some_cases hf).resolve_left nofun
  constructor
  case root_eq => exact Tables.set_self ..
  case bounded => intro l p f hf; exact ⟨Nat.le_of_eq (hT hf).2.1, fun _ => (hT hf).2.2⟩
  case inj => intro l p l' p' f h₁ h₂; exact ⟨(hT h₁).2.1.trans (hT h₂).2.1.symm, (hT h₁).2.2.trans (hT h₂).2.2.symm⟩
  case frameOk => intro l p f hf; rw [(hT hf).1]; exact hroot
  case parent =>
    intro l p hne hl
    obtain ⟨f, hf⟩ := Option.ne_none_iff_exists'.1 hne
    have := (hT hf).2.1
    omega
  case wordParent => intro v hv; exact absurd rfl hv
  case entry =>
    intro l p f hf i hi hhalf
    obtain ⟨rfl, hl, rfl⟩ := hT hf
    rw [hmem i hi (hhalf hl), Tables.set_of_ne _ _ (by omega)]
    rfl
  case leaf => intro p f hf; have := (hT hf).2.1; omega

end Outline

/-- Memory holds the page table with root `root`, tables `T` and pages `P`, as far as the entries `E` of the root lead; its other
entries hold `high`. -/
structure Rep (F : PteFormat) (E : Nat → Prop) (root : Nat) (high : Nat → Nat) (s : Memory) (T : Tables) (P : Pages) : Prop
    extends Outline F E root s T fun v => F.leafWord (P v) where
  low : ∀ {l p f : Nat}, T l p = some f → l + 1 = F.top → p < 512 ∧ E p
  pageParent : ∀ {v : Nat}, P v ≠ none → T 0 (v / 512) ≠ none
  pageOk : ∀ {v phys : Nat} {flags : MappingFlags}, P v = some (phys, flags) → FrameOk phys
  upper : ∀ i, ¬ E i → i < 512 → s.mem root i = high i
  stat_ne : ∀ {p f : Nat}, T 0 p = some f → ∀ i < 512, P (p * 512 + i) ≠ none → s.stat f i ≠ .invalid

namespace Rep

variable {F : PteFormat} {E : Nat → Prop} {root : Nat} {high : Nat → Nat} {s s' : Memory} {T : Tables} {P : Pages}

theorem page_none_below (h : Rep F E root high s T P) {k : Nat} (hnone : T 0 k = none) {i : Nat} (hi : i < 512) :
    P (k * 512 + i) = none := by
  by_contra hne
  apply h.pageParent hne
  rw [show (k * 512 + i) / 512 = k by omega]
  exact hnone

/-- An empty table is linked into a region that had none. -/
theorem addTable (h : Rep F E root high s T P) {l p page i child : Nat} (hpage : T (l + 1) p = some page) (hi : i < 512)
    (hhalf : l + 1 = F.top → E i) (hnone : T l (p * 512 + i) = none) (hchild : FrameOk child)
    (hfresh : ∀ l p, T l p ≠ some child)
    (hmem : ∀ f j, s'.mem f j = if f = page ∧ j = i then F.tableEntry child else if f = child then 0 else s.mem f j)
    (hmeta : s'.metadata = s.metadata) : Rep F E root high s' (T.set l (p * 512 + i) (some child)) P := by
  refine { h.toOutline.addTable hpage hi hnone hchild hfresh hmem with low := ?_, pageParent := ?_, pageOk := h.pageOk, upper := ?_, stat_ne := ?_ }
  · intro l' p' f hset hl'
    rcases Tables.set_some_cases hset with hf | ⟨-, rfl, rfl⟩
    · exact h.low hf hl'
    · have hp := (h.bounded hpage).2 hl'
      rw [hp, Nat.zero_mul, Nat.zero_add]
      exact ⟨hi, hhalf hl'⟩
  · intro v hv
    obtain ⟨f, hf⟩ := Option.ne_none_iff_exists'.1 (h.pageParent hv)
    rw [Tables.set_keep hnone hf]
    simp
  · intro j hj hj'
    rw [hmem, if_neg, if_neg, h.upper j hj hj']
    · rintro rfl; exact hfresh _ _ h.root_eq
    · rintro ⟨rfl, rfl⟩
      exact hj (hhalf (h.inj hpage h.root_eq).1)
  · intro p' f hset i' hi' hP
    have hstat : s'.stat f i' = s.stat f i' := by rw [Memory.stat, Memory.stat, hmeta]
    rw [hstat]
    rcases Tables.set_some_cases hset with hf | ⟨-, rfl, rfl⟩
    · exact h.stat_ne hf i' hi' hP
    · exact absurd (h.page_none_below hnone hi') hP

/-- A leaf entry is written. -/
theorem setLeaf (h : Rep F E root high s T P) {p page i : Nat} (hpage : T 0 p = some page) (hi : i < 512)
    (htop : 0 < F.top) {x : Option (Nat × MappingFlags)}
    (hx : ∀ phys flags, x = some (phys, flags) → FrameOk phys)
    (hmem : ∀ f j, s'.mem f j = if f = page ∧ j = i then F.leafWord x else s.mem f j)
    (hstat : ∀ f j, FrameOk f → ¬ (f = page ∧ j = i) → s'.stat f j = s.stat f j)
    (hnew : x ≠ none → s'.stat page i ≠ .invalid) :
    Rep F E root high s' T (Function.update P (p * 512 + i) x) := by
  have hwords : (fun v => F.leafWord (Function.update P (p * 512 + i) x v)) =
      Function.update (fun v => F.leafWord (P v)) (p * 512 + i) (F.leafWord x) :=
    Function.comp_update F.leafWord P (p * 512 + i) x
  have hout := h.toOutline.setWord hpage hi hmem
  rw [← hwords] at hout
  refine { hout with low := h.low, pageParent := ?_, pageOk := ?_, upper := ?_, stat_ne := ?_ }
  · intro v hv
    by_cases hk : v = p * 512 + i
    · rw [hk, show (p * 512 + i) / 512 = p by omega, hpage]
      simp
    · rw [Function.update_of_ne hk] at hv
      exact h.pageParent hv
  · intro v phys flags hv
    by_cases hk : v = p * 512 + i
    · rw [hk, Function.update_self] at hv
      exact hx phys flags hv
    · rw [Function.update_of_ne hk] at hv
      exact h.pageOk hv
  · intro j hj hj'
    rw [hmem, if_neg, h.upper j hj hj']
    rintro ⟨rfl, -⟩
    have := (h.inj hpage h.root_eq).1
    omega
  · intro p' f hf i' hi' hP
    by_cases hfp : f = page ∧ i' = i
    · obtain ⟨rfl, rfl⟩ := hfp
      obtain ⟨-, rfl⟩ := h.inj hf hpage
      rw [Function.update_self] at hP
      exact hnew hP
    · rw [hstat f i' (h.frameOk hf) hfp]
      refine h.stat_ne hf i' hi' ?_
      rwa [Function.update_of_ne] at hP
      intro he
      obtain ⟨rfl, rfl⟩ := key_inj hi hi' he
      rw [hpage] at hf
      exact hfp ⟨(Option.some.inj hf).symm, rfl⟩

/-- A table without entries is unlinked. -/
theorem removeTable (hF : F.Lawful) (h : Rep F E root high s T P) {l p page i child : Nat} (hpage : T (l + 1) p = some page)
    (hi : i < 512) (hhalf : l + 1 = F.top → E i) (hchild : T l (p * 512 + i) = some child)
    (hempty : ∀ j < 512, s.mem child j = 0)
    (hmem : ∀ f j, s'.mem f j = if f = page ∧ j = i then 0 else s.mem f j)
    (hstat : ∀ f j, FrameOk f → f ≠ child → s'.stat f j = s.stat f j) :
    Rep F E root high s' (T.set l (p * 512 + i) none) P := by
  have hout := h.toOutline.removeTable hF hpage hi hchild hempty hmem
  refine { hout with low := ?_, pageParent := ?_, pageOk := h.pageOk, upper := ?_, stat_ne := ?_ }
  · intro l' p' f hf
    exact h.low (Tables.set_none_cases hf).2
  · intro v hv
    obtain ⟨⟨phys, flags⟩, hP⟩ := Option.ne_none_iff_exists'.1 hv
    refine hout.wordParent (v := v) ?_
    rw [hP]
    exact hF.leaf_ne_zero (h.pageOk hP) flags
  · intro j hj hj'
    rw [hmem, if_neg, h.upper j hj hj']
    rintro ⟨rfl, rfl⟩
    exact hj (hhalf (h.inj hpage h.root_eq).1)
  · intro p' f hset i' hi' hP
    obtain ⟨hk, hf⟩ := Tables.set_none_cases hset
    rw [hstat f i' (h.frameOk hf) ?_]
    · exact h.stat_ne hf i' hi' hP
    · rintro rfl
      obtain ⟨rfl, rfl⟩ := h.inj hf hchild
      exact hk ⟨rfl, rfl⟩

/-- A root whose own entries are zero has no other table and no page. -/
theorem new (htop : 0 < F.top) (hroot : FrameOk root) (hmem : ∀ i < 512, E i → s.mem root i = 0)
    (hhigh : ∀ i, ¬ E i → i < 512 → s.mem root i = high i) :
    Rep F E root high s (Tables.set (fun _ _ => none) F.top 0 (some root)) fun _ => none := by
  refine { Outline.new htop hroot hmem with
    low := ?_, pageParent := fun hv => absurd rfl hv, pageOk := nofun, upper := hhigh, stat_ne := fun _ _ _ hne => absurd rfl hne }
  intro l p f hf hl
  have hf' := (Tables.set_some_cases hf).resolve_left nofun
  omega

end Rep

end Koros.Mmu
