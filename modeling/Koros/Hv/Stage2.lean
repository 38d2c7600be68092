import Koros.Hv.Dma

/-!
# Stage-2 tables

`build_stage2` of `korhv/src/arch/aarch64/hyp.rs`: the writes that it makes into the three frames of a guest's tables, and
what the hardware finds there. `VTCR_EL2` is set to a walk that starts at level 1 with 39 bits of intermediate address and
40 bits of output address, 4 KiB granule. The build is the release one, in which `u64` wraps around.

- `walk_lt`: a translation never leaves 40 bits;
- `walk_built`: what the walk finds in the tables of a manifest that fits the window of the second level-2 table;
- **`stage2_iff`**: the tables match the manifest, and two guests are apart, exactly for manifests that fit.
-/
set_option autoImplicit false

namespace Koros.Hv

open Koros.Lib

/-! ## The tables -/

/-- A `GuestManifest` of 64-bit numbers. -/
structure Manifest extends GuestManifest where
  ipaBase_lt : ipaBase < 2 ^ 64
  hpaBase_lt : hpaBase < 2 ^ 64
  memorySize_lt : memorySize < 2 ^ 64
  dtbIpa_lt : dtbIpa < 2 ^ 64
  dtbHpa_lt : dtbHpa < 2 ^ 64

/-- `STAGE2_BLOCK_SIZE`. -/
def blockSize : Nat := 0x200000

/-- `S2_BLOCK`. -/
def s2Block : Nat := 0x1 ||| (0xF <<< 2) ||| (0x3 <<< 6) ||| (1 <<< 10)

/-- `Stage2Root`: three frames, below the 48 bits of a physical address. -/
structure Stage2Root where
  l1 : Nat
  l20 : Nat
  l21 : Nat
  aligned : l1 % 4096 = 0 ∧ l20 % 4096 = 0 ∧ l21 % 4096 = 0
  lt : l1 < 2 ^ 48 ∧ l20 < 2 ^ 48 ∧ l21 < 2 ^ 48
  distinct : l1 ≠ l20 ∧ l1 ≠ l21 ∧ l20 ≠ l21

/-- The address lies in one of the frames. -/
def Stage2Root.Inside (root : Stage2Root) (a : Nat) : Prop :=
  (root.l1 ≤ a ∧ a < root.l1 + 4096) ∨ (root.l20 ≤ a ∧ a < root.l20 + 4096) ∨ (root.l21 ≤ a ∧ a < root.l21 + 4096)

instance (root : Stage2Root) (a : Nat) : Decidable (root.Inside a) := inferInstanceAs (Decidable (_ ∨ _ ∨ _))

namespace Manifest

/-- The assertions of `build_stage2`. -/
def Asserted (m : Manifest) : Prop :=
  m.ipaBase % blockSize = 0 ∧ m.hpaBase % blockSize = 0 ∧ m.memorySize % blockSize = 0 ∧ m.dtbIpa % blockSize = 0 ∧
    m.dtbHpa % blockSize = 0

instance (m : Manifest) : Decidable m.Asserted := inferInstanceAs (Decidable (_ ∧ _))

/-- The index of an address in the level-2 table of the second GiB. -/
def blockIndex (ipa : Nat) : Nat := (ipa + 2 ^ 64 - 0x40000000) % 2 ^ 64 / blockSize

/-- The writes of `u64` words, in their order. -/
def tableWrites (m : Manifest) (root : Stage2Root) : List (Nat × Nat) :=
  [(root.l1, root.l20 ||| 3), (root.l1 + 8, root.l21 ||| 3)] ++
  (List.range (m.memorySize / blockSize)).map (fun i =>
    (root.l21 + 8 * (blockIndex m.ipaBase + i), (m.hpaBase + i * blockSize) % 2 ^ 64 ||| s2Block)) ++
  [(root.l21 + 8 * blockIndex m.dtbIpa, m.dtbHpa ||| s2Block)]

end Manifest

/-- Writes one after the other. -/
def storeAll (mem : Nat → Nat) (writes : List (Nat × Nat)) : Nat → Nat :=
  writes.foldl (fun mem w => Function.update mem w.1 w.2) mem

/-- `build_stage2` on the frames that it was given: the words of memory afterwards; `none` is a failed assertion. -/
def buildStage2 (m : Manifest) (root : Stage2Root) (mem : Nat → Nat) : Option (Nat → Nat) :=
  if m.Asserted then some (storeAll (fun a => if root.Inside a then 0 else mem a) (m.tableWrites root)) else none

/-! ## The walk -/

/-- Bits `hi` down to `lo` of a descriptor, in their place. -/
def field (e lo hi : Nat) : Nat := e % 2 ^ (hi + 1) / 2 ^ lo * 2 ^ lo

/-- The output of a block or page descriptor of `2 ^ bits` bytes: the access flag has to be set, and the address has to fit
into the 40 bits of `VTCR_EL2.PS`. -/
def output (e ipa bits : Nat) : Option Nat :=
  if e / 2 ^ 10 % 2 = 1 ∧ field e bits 47 < 2 ^ 40 then some (field e bits 47 + ipa % 2 ^ bits) else none

/-- The stage-2 walk of the hardware. -/
def stage2Walk (mem : Nat → Nat) (l1 ipa : Nat) : Option Nat :=
  if 2 ^ 39 ≤ ipa then none
  else
    let e₁ := mem (l1 + 8 * (ipa / 2 ^ 30))
    if e₁ % 4 = 1 then output e₁ ipa 30
    else if e₁ % 4 = 3 then
      let e₂ := mem (field e₁ 12 47 + 8 * (ipa / 2 ^ 21 % 512))
      if e₂ % 4 = 1 then output e₂ ipa 21
      else if e₂ % 4 = 3 then
        let e₃ := mem (field e₂ 12 47 + 8 * (ipa / 2 ^ 12 % 512))
        if e₃ % 4 = 3 then output e₃ ipa 12 else none
      else none
    else none

theorem output_lt {e ipa bits h : Nat} (hbits : bits ≤ 40) (ho : output e ipa bits = some h) : h < 2 ^ 40 := by
  unfold output at ho
  split at ho
  · next hcond =>
    obtain ⟨-, hlt⟩ := hcond
    cases ho
    -- the address is a multiple of the size
    have hdvd : 2 ^ bits ∣ 2 ^ 40 := Nat.pow_dvd_pow 2 hbits
    obtain ⟨k, hk⟩ := hdvd
    have hmod : ipa % 2 ^ bits < 2 ^ bits := Nat.mod_lt _ (Nat.two_pow_pos bits)
    unfold field at hlt ⊢
    set q := e % 2 ^ (47 + 1) / 2 ^ bits
    rw [hk, Nat.mul_comm (2 ^ bits)] at hlt ⊢
    have hq : q < k := Nat.lt_of_mul_lt_mul_right hlt
    calc q * 2 ^ bits + ipa % 2 ^ bits < q * 2 ^ bits + 2 ^ bits := Nat.add_lt_add_left hmod _
      _ = (q + 1) * 2 ^ bits := (Nat.succ_mul q (2 ^ bits)).symm
      _ ≤ k * 2 ^ bits := Nat.mul_le_mul_right _ hq
  · cases ho

/-- A translation fits into 40 bits. -/
theorem walk_lt {mem : Nat → Nat} {l1 ipa h : Nat} (hw : stage2Walk mem l1 ipa = some h) : h < 2 ^ 40 := by
  unfold stage2Walk at hw
  dsimp only at hw
  split at hw
  · cases hw
  split at hw
  · exact output_lt (by decide) hw
  split at hw
  · split at hw
    · exact output_lt (by decide) hw
    split at hw
    · split at hw
      · exact output_lt (by decide) hw
      · cases hw
    · cases hw
  · cases hw

/-! ## What is asked of the tables -/

/-- The intermediate address has to lead to the host address. -/
def Manifest.Wants (m : Manifest) (ipa h : Nat) : Prop :=
  m.translate ipa 1 = some h ∨ (m.dtbIpa ≤ ipa ∧ ipa < m.dtbIpa + blockSize ∧ h = m.dtbHpa + (ipa - m.dtbIpa))

/-- The tables are built, map what the manifest says, and no write leaves the frames. -/
def Manifest.Matches (m : Manifest) : Prop :=
  ∀ (root : Stage2Root) (mem : Nat → Nat), ∃ tables, buildStage2 m root mem = some tables ∧
    (∀ ipa h, stage2Walk tables root.l1 ipa = some h ↔ m.Wants ipa h) ∧ ∀ w ∈ m.tableWrites root, root.Inside w.1

/-- The host ranges of RAM and device tree of two guests do not meet. -/
def Manifest.HostDisjoint (m m' : Manifest) : Prop :=
  ∀ h, ¬ (((m.hpaBase ≤ h ∧ h < m.hpaBase + m.memorySize) ∨ (m.dtbHpa ≤ h ∧ h < m.dtbHpa + blockSize)) ∧
    ((m'.hpaBase ≤ h ∧ h < m'.hpaBase + m'.memorySize) ∨ (m'.dtbHpa ≤ h ∧ h < m'.dtbHpa + blockSize)))

/-- No host address is mapped for both. -/
def Manifest.Apart (m m' : Manifest) : Prop :=
  ∀ (root root' : Stage2Root) (mem mem' tables tables' : Nat → Nat), buildStage2 m root mem = some tables →
    buildStage2 m' root' mem' = some tables' → ∀ ipa ipa' h, stage2Walk tables root.l1 ipa = some h →
      stage2Walk tables' root'.l1 ipa' ≠ some h

/-- RAM and device tree lie in the second GiB of intermediate addresses and below 2⁴⁰ in the host, and where they meet they
agree. -/
structure Manifest.Fits (m : Manifest) : Prop where
  ram : m.memorySize ≠ 0 →
    0x40000000 ≤ m.ipaBase ∧ m.ipaBase + m.memorySize ≤ 0x80000000 ∧ m.hpaBase + m.memorySize ≤ 2 ^ 40
  dtb : 0x40000000 ≤ m.dtbIpa ∧ m.dtbIpa < 0x80000000 ∧ m.dtbHpa < 2 ^ 40
  agree : m.ipaBase ≤ m.dtbIpa → m.dtbIpa < m.ipaBase + m.memorySize → m.dtbHpa = m.hpaBase + (m.dtbIpa - m.ipaBase)

/-! ## Reading the tables -/

section Stores

variable {mem : Nat → Nat} {writes : List (Nat × Nat)} {a : Nat}

theorem storeAll_append (mem : Nat → Nat) (l l' : List (Nat × Nat)) :
    storeAll mem (l ++ l') = storeAll (storeAll mem l) l' := List.foldl_append

theorem storeAll_of_ne (h : ∀ w ∈ writes, w.1 ≠ a) : storeAll mem writes a = mem a := by
  induction writes generalizing mem with
  | nil => rfl
  | cons w writes ih =>
    have hrest : storeAll (Function.update mem w.1 w.2) writes a = Function.update mem w.1 w.2 a :=
      ih fun v hv => h v (List.mem_cons_of_mem _ hv)
    have hne : a ≠ w.1 := (h w List.mem_cons_self).symm
    exact hrest.trans (Function.update_of_ne hne ..)

/-- Words written one after the other, each at its own address. -/
theorem storeAll_range {f g : Nat → Nat} (hf : ∀ i j, f i = f j → i = j) (n i : Nat) (hi : i < n) :
    storeAll mem ((List.range n).map fun i => (f i, g i)) (f i) = g i := by
  induction n with
  | zero => exact absurd hi (Nat.not_lt_zero i)
  | succ n ih =>
    rw [List.range_succ, List.map_append, storeAll_append]
    have hlast : ∀ mem : Nat → Nat, storeAll mem ([n].map fun i => (f i, g i)) = Function.update mem (f n) (g n) := fun _ => rfl
    rw [hlast]
    by_cases he : i = n
    · subst he
      exact Function.update_self ..
    · rw [Function.update_of_ne fun h => he (hf i n h)]
      exact ih (by omega)

end Stores

theorem or_s2Block {x : Nat} (h : x % blockSize = 0) : x ||| s2Block = x + s2Block := by
  obtain ⟨q, rfl⟩ : ∃ q, x = 2 ^ 21 * q := ⟨x / 2 ^ 21, by unfold blockSize at h; omega⟩
  exact (Nat.two_pow_add_eq_or_of_lt (by decide) q).symm

theorem or_three {x : Nat} (h : x % 4096 = 0) : x ||| 3 = x + 3 := by
  obtain ⟨q, rfl⟩ : ∃ q, x = 2 ^ 12 * q := ⟨x / 2 ^ 12, by omega⟩
  exact (Nat.two_pow_add_eq_or_of_lt (by decide) q).symm

/-- A table descriptor leads to its table. -/
theorem table_descriptor {x : Nat} (h : x % 4096 = 0) (hlt : x < 2 ^ 48) : (x ||| 3) % 4 = 3 ∧ field (x ||| 3) 12 47 = x := by
  rw [or_three h]
  unfold field
  omega

/-- A block descriptor leads to its block. -/
theorem block_descriptor {x ipa : Nat} (h : x % blockSize = 0) (hlt : x < 2 ^ 40) :
    (x ||| s2Block) % 4 = 1 ∧ output (x ||| s2Block) ipa 21 = some (x + ipa % blockSize) := by
  have hs : s2Block = 1277 := by decide
  rw [or_s2Block h, hs]
  unfold blockSize at h
  have hfield : field (x + 1277) 21 47 = x := by
    unfold field
    omega
  refine ⟨by omega, ?_⟩
  unfold output
  rw [hfield, if_pos ⟨by omega, hlt⟩]
  rfl

section Built

variable {m : Manifest} {root : Stage2Root} {mem tables : Nat → Nat}

/-- The first block of RAM in the second GiB. -/
theorem blockIndex_eq {ipa : Nat} (hlow : 0x40000000 ≤ ipa) (hlt : ipa < 2 ^ 64) :
    Manifest.blockIndex ipa = (ipa - 0x40000000) / blockSize := by
  have hsub : (ipa + 2 ^ 64 - 0x40000000) % 2 ^ 64 = ipa - 0x40000000 := by omega
  rw [Manifest.blockIndex, hsub]

/-- The RAM blocks and the block of the device tree stay in the level-2 table. -/
theorem Manifest.Fits.index_lt (h : m.Fits) (ha : m.Asserted) :
    Manifest.blockIndex m.dtbIpa < 512 ∧
      ∀ i < m.memorySize / blockSize, Manifest.blockIndex m.ipaBase + i < 512 := by
  obtain ⟨hlow, hhigh, -⟩ := h.dtb
  constructor
  · rw [blockIndex_eq hlow m.dtbIpa_lt]
    unfold blockSize
    omega
  · intro i hi
    have hne : m.memorySize ≠ 0 := by
      rintro h0
      rw [h0] at hi
      exact absurd hi (by simp)
    obtain ⟨hlow, hend, -⟩ := h.ram hne
    have hsize := ha.2.2.1
    rw [blockIndex_eq hlow m.ipaBase_lt]
    unfold blockSize at *
    omega

/-- What an entry of the level-2 table holds. -/
def Manifest.entry (m : Manifest) (k : Nat) : Nat :=
  if k = blockIndex m.dtbIpa then m.dtbHpa ||| s2Block
  else if blockIndex m.ipaBase ≤ k ∧ k < blockIndex m.ipaBase + m.memorySize / blockSize then
    (m.hpaBase + (k - blockIndex m.ipaBase) * blockSize) % 2 ^ 64 ||| s2Block
  else 0

/-- The writes into the level-2 table. -/
theorem level2_write (h : m.Fits) (ha : m.Asserted) {w : Nat × Nat} (hw : w ∈ m.tableWrites root) :
    w.1 = root.l1 ∨ w.1 = root.l1 + 8 ∨ ∃ k < 512, w.1 = root.l21 + 8 * k := by
  obtain ⟨hdtb, hram⟩ := h.index_lt ha
  simp only [Manifest.tableWrites, List.mem_append, List.mem_cons, List.not_mem_nil, or_false, List.mem_map,
    List.mem_range] at hw
  rcases hw with ((rfl | rfl) | ⟨i, hi, rfl⟩) | rfl
  · exact .inl rfl
  · exact .inr (.inl rfl)
  · exact .inr (.inr ⟨_, hram i hi, rfl⟩)
  · exact .inr (.inr ⟨_, hdtb, rfl⟩)

theorem inside_of_fits (h : m.Fits) (ha : m.Asserted) : ∀ w ∈ m.tableWrites root, root.Inside w.1 := by
  intro w hw
  unfold Stage2Root.Inside
  rcases level2_write h ha hw with he | he | ⟨k, hk, he⟩
  · omega
  · omega
  · omega

/-- The frames are apart. -/
theorem Stage2Root.apart (root : Stage2Root) :
    (root.l1 + 4096 ≤ root.l20 ∨ root.l20 + 4096 ≤ root.l1) ∧ (root.l1 + 4096 ≤ root.l21 ∨ root.l21 + 4096 ≤ root.l1) ∧
      (root.l20 + 4096 ≤ root.l21 ∨ root.l21 + 4096 ≤ root.l20) := by
  have h₁ := root.aligned
  have h₂ := root.distinct
  omega

/-- The level-1 table. -/
theorem built_l1 (h : m.Fits) (ha : m.Asserted) (hb : buildStage2 m root mem = some tables) {k : Nat} (hk : k < 512) :
    tables (root.l1 + 8 * k) = if k = 0 then root.l20 ||| 3 else if k = 1 then root.l21 ||| 3 else 0 := by
  rw [buildStage2, if_pos ha] at hb
  obtain rfl := Option.some.inj hb
  obtain ⟨hdtb, hram⟩ := h.index_lt ha
  have hapart := root.apart
  unfold Manifest.tableWrites
  rw [storeAll_append, storeAll_append, storeAll_of_ne, storeAll_of_ne]
  · show Function.update (Function.update _ root.l1 _) (root.l1 + 8) _ (root.l1 + 8 * k) = _
    by_cases h₁ : k = 1
    · subst h₁
      rw [Function.update_self]
      rfl
    · rw [Function.update_of_ne (by omega)]
      by_cases h₀ : k = 0
      · subst h₀
        exact Function.update_self ..
      · rw [Function.update_of_ne (by omega), if_neg h₀, if_neg h₁, if_pos]
        exact .inl ⟨by omega, by omega⟩
  · intro w hw
    simp only [List.mem_map, List.mem_range] at hw
    obtain ⟨i, hi, rfl⟩ := hw
    have := hram i hi
    dsimp only
    omega
  · intro w hw
    rw [List.mem_singleton] at hw
    subst hw
    dsimp only
    omega

/-- The first level-2 table is empty. -/
theorem built_l20 (h : m.Fits) (ha : m.Asserted) (hb : buildStage2 m root mem = some tables) {k : Nat} (hk : k < 512) :
    tables (root.l20 + 8 * k) = 0 := by
  rw [buildStage2, if_pos ha] at hb
  obtain rfl := Option.some.inj hb
  have hapart := root.apart
  rw [storeAll_of_ne, if_pos]
  · exact .inr (.inl ⟨by omega, by omega⟩)
  · intro w hw
    rcases level2_write h ha hw with he | he | ⟨j, hj, he⟩
    · omega
    · omega
    · omega

/-- The second level-2 table. -/
theorem built_l21 (hb : buildStage2 m root mem = some tables) {k : Nat} (hk : k < 512) :
    tables (root.l21 + 8 * k) = m.entry k := by
  unfold buildStage2 at hb
  split at hb
  · obtain rfl := Option.some.inj hb
    have hapart := root.apart
    unfold Manifest.tableWrites Manifest.entry
    rw [storeAll_append]
    show Function.update _ (root.l21 + 8 * Manifest.blockIndex m.dtbIpa) _ _ = _
    by_cases hd : k = Manifest.blockIndex m.dtbIpa
    · rw [if_pos hd, hd, Function.update_self]
    · rw [if_neg hd, Function.update_of_ne (by omega), storeAll_append]
      split
      · next hk' =>
        have hinj : ∀ i j, root.l21 + 8 * (Manifest.blockIndex m.ipaBase + i) = root.l21 + 8 * (Manifest.blockIndex m.ipaBase + j) →
            i = j := by omega
        have hrange := @storeAll_range (storeAll (fun a => if root.Inside a then 0 else mem a)
            [(root.l1, root.l20 ||| 3), (root.l1 + 8, root.l21 ||| 3)]) _
          (fun i => (m.hpaBase + i * blockSize) % 2 ^ 64 ||| s2Block) hinj (m.memorySize / blockSize)
          (k - Manifest.blockIndex m.ipaBase) (by omega)
        rw [Nat.add_sub_cancel' hk'.1] at hrange
        exact hrange
      · next hk' =>
        rw [storeAll_of_ne]
        · show Function.update (Function.update _ root.l1 _) (root.l1 + 8) _ (root.l21 + 8 * k) = 0
          rw [Function.update_of_ne (by omega), Function.update_of_ne (by omega), if_pos]
          exact .inr (.inr ⟨by omega, by omega⟩)
        · intro w hw
          simp only [List.mem_map, List.mem_range] at hw
          obtain ⟨i, hi, rfl⟩ := hw
          dsimp only
          omega
  · cases hb

/-- **What the walk finds**: a block of the second GiB, by its entry. -/
theorem walk_built (h : m.Fits) (ha : m.Asserted) (hb : buildStage2 m root mem = some tables) (ipa : Nat) :
    stage2Walk tables root.l1 ipa =
      if ipa / 2 ^ 30 = 1 ∧ m.entry (ipa / 2 ^ 21 % 512) % 4 = 1 then output (m.entry (ipa / 2 ^ 21 % 512)) ipa 21 else none := by
  have hslot : ipa / 2 ^ 21 % 512 < 512 := Nat.mod_lt _ (by decide)
  have hentry : m.entry (ipa / 2 ^ 21 % 512) % 4 ≠ 3 := by
    unfold Manifest.entry
    have hs : s2Block = 1277 := by decide
    obtain ⟨-, hhpa, -, -, hdtb⟩ := ha
    split
    · rw [or_s2Block hdtb, hs]
      unfold blockSize at hdtb
      omega
    split
    · rw [or_s2Block (by unfold blockSize at *; omega), hs]
      unfold blockSize at *
      omega
    · decide
  unfold stage2Walk
  dsimp only
  by_cases hbig : 2 ^ 39 ≤ ipa
  · rw [if_pos hbig, if_neg]
    omega
  rw [if_neg hbig, built_l1 h ha hb (show ipa / 2 ^ 30 < 512 by omega)]
  obtain ⟨ha₁, ha₂, ha₃⟩ := root.aligned
  obtain ⟨hl₁, hl₂, hl₃⟩ := root.lt
  obtain ⟨h20, hf20⟩ := table_descriptor ha₂ hl₂
  obtain ⟨h21, hf21⟩ := table_descriptor ha₃ hl₃
  by_cases h0 : ipa / 2 ^ 30 = 0
  · rw [if_pos h0, if_neg (by omega), if_pos h20, hf20, built_l20 h ha hb hslot, if_neg (by decide), if_neg (by decide),
      if_neg (by omega)]
  rw [if_neg h0]
  by_cases h1 : ipa / 2 ^ 30 = 1
  · rw [if_pos h1, if_neg (by omega), if_pos h21, hf21, built_l21 hb hslot, if_neg hentry]
    simp only [h1, true_and]
  · rw [if_neg h1, if_neg (by decide), if_neg (by decide), if_neg fun hc => h1 hc.1]

end Built

/-! ## Manifests that fit -/

section Fits

variable {m m' : Manifest} {root : Stage2Root} {mem tables : Nat → Nat} {ipa h : Nat}

/-- An address of RAM, if nothing overflows. -/
theorem translate_eq {g : GuestManifest} (hlow : g.ipaBase ≤ ipa) (hend : ipa < g.ipaBase + g.memorySize)
    (hfit : g.ipaBase + g.memorySize < 2 ^ 64) (hhost : g.hpaBase + (ipa - g.ipaBase) < 2 ^ 64) :
    g.translate ipa 1 = some (g.hpaBase + (ipa - g.ipaBase)) := by
  have hlast : checkedAdd ipa 1 = some (ipa + 1) := checked_eq_some (by omega)
  have hmemory : checkedAdd g.ipaBase g.memorySize = some (g.ipaBase + g.memorySize) := checked_eq_some hfit
  have hhpa : checkedAdd g.hpaBase (ipa - g.ipaBase) = some (g.hpaBase + (ipa - g.ipaBase)) := checked_eq_some hhost
  simp only [GuestManifest.translate, hlast, hmemory, Option.bind_eq_bind, Option.bind_some]
  rw [if_neg (by omega), hhpa]

/-- `translate` on RAM that fits. -/
theorem translate_iff (hf : m.Fits) : m.translate ipa 1 = some h ↔
    m.ipaBase ≤ ipa ∧ ipa < m.ipaBase + m.memorySize ∧ h = m.hpaBase + (ipa - m.ipaBase) := by
  constructor
  · intro ht
    obtain ⟨hlow, hend, rfl⟩ := translate_eq_some ht
    exact ⟨hlow, hend, rfl⟩
  · rintro ⟨hlow, hend, rfl⟩
    have hne : m.memorySize ≠ 0 := by omega
    obtain ⟨-, hwindow, hhost⟩ := hf.ram hne
    exact translate_eq hlow hend (by omega) (by omega)

/-- The block of the device tree. -/
theorem entry_dtb (hf : m.Fits) (ha : m.Asserted) (hlow : m.dtbIpa ≤ ipa) (hhigh : ipa < m.dtbIpa + blockSize) :
    ipa / 2 ^ 30 = 1 ∧ m.entry (ipa / 2 ^ 21 % 512) = m.dtbHpa ||| s2Block := by
  obtain ⟨hwin, hwin', -⟩ := hf.dtb
  obtain ⟨-, -, -, hal, -⟩ := ha
  have hindex := blockIndex_eq hwin m.dtbIpa_lt
  unfold blockSize at *
  refine ⟨by omega, ?_⟩
  rw [Manifest.entry, if_pos (by omega)]

/-- A block of RAM. -/
theorem entry_ram (hf : m.Fits) (ha : m.Asserted) (hlow : m.ipaBase ≤ ipa) (hhigh : ipa < m.ipaBase + m.memorySize)
    (hdtb : ¬ (m.dtbIpa ≤ ipa ∧ ipa < m.dtbIpa + blockSize)) :
    ipa / 2 ^ 30 = 1 ∧ ∃ x, m.entry (ipa / 2 ^ 21 % 512) = x ||| s2Block ∧ x % blockSize = 0 ∧ x < 2 ^ 40 ∧
      x + ipa % blockSize = m.hpaBase + (ipa - m.ipaBase) := by
  obtain ⟨hwin, hwin', -⟩ := hf.dtb
  obtain ⟨hram, hram', hhost⟩ := hf.ram (by omega)
  obtain ⟨hal₁, hal₂, hal₃, hal₄, -⟩ := ha
  have hindex := blockIndex_eq hwin m.dtbIpa_lt
  have hstart := blockIndex_eq hram m.ipaBase_lt
  unfold blockSize at *
  refine ⟨by omega, m.hpaBase + (ipa / 2 ^ 21 % 512 - Manifest.blockIndex m.ipaBase) * 0x200000, ?_, by omega, by omega,
    by omega⟩
  rw [Manifest.entry, if_neg (by omega), if_pos ⟨by omega, by unfold blockSize; omega⟩]
  unfold blockSize
  rw [Nat.mod_eq_of_lt (by omega)]

/-- No block at all. -/
theorem entry_none (hf : m.Fits) (ha : m.Asserted) (hram : ¬ (m.ipaBase ≤ ipa ∧ ipa < m.ipaBase + m.memorySize))
    (hdtb : ¬ (m.dtbIpa ≤ ipa ∧ ipa < m.dtbIpa + blockSize)) (hgib : ipa / 2 ^ 30 = 1) :
    m.entry (ipa / 2 ^ 21 % 512) = 0 := by
  obtain ⟨hwin, hwin', -⟩ := hf.dtb
  obtain ⟨hal₁, hal₂, hal₃, hal₄, -⟩ := ha
  have hindex := blockIndex_eq hwin m.dtbIpa_lt
  unfold blockSize at *
  rw [Manifest.entry, if_neg (by omega), if_neg]
  rintro ⟨hlow, hhigh⟩
  unfold blockSize at hhigh
  have hne : m.memorySize ≠ 0 := by
    intro h0
    rw [h0] at hhigh
    omega
  obtain ⟨hwram, hwram', -⟩ := hf.ram hne
  have hstart := blockIndex_eq hwram m.ipaBase_lt
  unfold blockSize at hstart
  omega

/-- The tables of a manifest that fits map what it says. -/
theorem walk_iff_wants (hf : m.Fits) (ha : m.Asserted) (hb : buildStage2 m root mem = some tables) :
    stage2Walk tables root.l1 ipa = some h ↔ m.Wants ipa h := by
  have hagree : m.dtbIpa ≤ ipa → ipa < m.dtbIpa + blockSize → m.ipaBase ≤ ipa → ipa < m.ipaBase + m.memorySize →
      m.hpaBase + (ipa - m.ipaBase) = m.dtbHpa + (ipa - m.dtbIpa) := by
    intro h₁ h₂ h₃ h₄
    obtain ⟨hal₁, -, hal₃, hal₄, -⟩ := ha
    -- both are made of whole blocks
    unfold blockSize at *
    have := hf.agree (by omega) (by omega)
    omega
  rw [walk_built hf ha hb, Manifest.Wants, translate_iff hf]
  by_cases hdtb : m.dtbIpa ≤ ipa ∧ ipa < m.dtbIpa + blockSize
  · obtain ⟨hgib, hentry⟩ := entry_dtb hf ha hdtb.1 hdtb.2
    obtain ⟨hvalid, hout⟩ := @block_descriptor _ ipa ha.2.2.2.2 hf.dtb.2.2
    have hoff : m.dtbHpa + ipa % blockSize = m.dtbHpa + (ipa - m.dtbIpa) := by
      have := ha.2.2.2.1
      unfold blockSize at *
      omega
    rw [hentry, if_pos ⟨hgib, hvalid⟩, hout, hoff, Option.some.injEq]
    constructor
    · rintro rfl
      exact .inr ⟨hdtb.1, hdtb.2, rfl⟩
    · rintro (⟨h₁, h₂, rfl⟩ | ⟨-, -, rfl⟩)
      · exact (hagree hdtb.1 hdtb.2 h₁ h₂).symm
      · rfl
  by_cases hram : m.ipaBase ≤ ipa ∧ ipa < m.ipaBase + m.memorySize
  · obtain ⟨hgib, x, hentry, hal, hlt, hsum⟩ := entry_ram hf ha hram.1 hram.2 hdtb
    obtain ⟨hvalid, hout⟩ := @block_descriptor _ ipa hal hlt
    rw [hentry, if_pos ⟨hgib, hvalid⟩, hout, hsum, Option.some.injEq]
    constructor
    · rintro rfl
      exact .inl ⟨hram.1, hram.2, rfl⟩
    · rintro (⟨-, -, rfl⟩ | ⟨h₁, h₂, -⟩)
      · rfl
      · exact absurd ⟨h₁, h₂⟩ hdtb
  · rw [if_neg]
    · refine iff_of_false nofun ?_
      rintro (⟨h₁, h₂, -⟩ | ⟨h₁, h₂, -⟩)
      · exact hram ⟨h₁, h₂⟩
      · exact hdtb ⟨h₁, h₂⟩
    · rintro ⟨hgib, hvalid⟩
      rw [entry_none hf ha hram hdtb hgib] at hvalid
      cases hvalid

theorem matches_of_fits (hf : m.Fits) (ha : m.Asserted) : m.Matches := by
  intro root mem
  have hb : buildStage2 m root mem = some _ := if_pos ha
  exact ⟨_, hb, fun _ _ => walk_iff_wants hf ha hb, inside_of_fits hf ha⟩

/-- Three frames in a row. -/
def lowRoot : Stage2Root := ⟨0x1000, 0x2000, 0x3000, by decide, by decide, by decide⟩

/-- A write behind the last frame leaves the tables. -/
theorem index_lt_of_inside {k : Nat} (hin : lowRoot.Inside (lowRoot.l21 + 8 * k)) : k < 512 := by
  unfold Stage2Root.Inside lowRoot at hin
  dsimp only at hin
  omega

theorem window_of_index {x : Nat} (hlt : x < 2 ^ 64) (hk : Manifest.blockIndex x < 512) : 0x40000000 ≤ x ∧ x < 0x80000000 := by
  unfold Manifest.blockIndex blockSize at hk
  omega

/-- Blocks of which each has an index in the table. -/
theorem blocks_window {base size : Nat} (hlt : base < 2 ^ 64) (hbase : base % blockSize = 0) (hsize : size % blockSize = 0)
    (hne : size ≠ 0) (hindex : ∀ i < size / blockSize, Manifest.blockIndex base + i < 512) :
    0x40000000 ≤ base ∧ base + size ≤ 0x80000000 := by
  have hblock : blockSize = 0x200000 := rfl
  rw [hblock] at hbase hsize hindex
  have hlast := hindex (size / 0x200000 - 1) (by omega)
  obtain ⟨hlow, hhigh⟩ := window_of_index hlt (by omega)
  rw [blockIndex_eq hlow hlt, hblock] at hlast
  omega

/-- The RAM of a manifest whose writes stay in the frames lies in the second GiB. -/
theorem ram_window (ha : m.Asserted) (hinside : ∀ w ∈ m.tableWrites lowRoot, lowRoot.Inside w.1) (hne : m.memorySize ≠ 0) :
    0x40000000 ≤ m.ipaBase ∧ m.ipaBase + m.memorySize ≤ 0x80000000 := by
  refine blocks_window m.ipaBase_lt ha.1 ha.2.2.1 hne fun i hi => ?_
  refine index_lt_of_inside (hinside (_, (m.hpaBase + i * blockSize) % 2 ^ 64 ||| s2Block) ?_)
  simp only [Manifest.tableWrites, List.mem_append, List.mem_map, List.mem_range]
  exact .inl (.inr ⟨i, hi, rfl⟩)

/-- The RAM of a manifest whose tables match lies below 2⁴⁰ in the host. -/
theorem ram_host {tables : Nat → Nat} {l1 : Nat} (hwalk : ∀ ipa h, stage2Walk tables l1 ipa = some h ↔ m.Wants ipa h)
    (hne : m.memorySize ≠ 0) (hend : m.ipaBase + m.memorySize ≤ 0x80000000) : m.hpaBase + m.memorySize ≤ 2 ^ 40 := by
  have hwants : ∀ off < m.memorySize, m.hpaBase + off < 2 ^ 64 → m.hpaBase + off < 2 ^ 40 := by
    intro off hoff hfit
    have hoffset : m.ipaBase + off - m.ipaBase = off := Nat.add_sub_cancel_left ..
    have ht := @translate_eq (m.ipaBase + off) m.toGuestManifest (by omega) (by omega) (by omega) (by rw [hoffset]; exact hfit)
    rw [hoffset] at ht
    exact walk_lt ((hwalk (m.ipaBase + off) _).2 (.inl ht))
  have hbase := hwants 0 (Nat.pos_of_ne_zero hne) m.hpaBase_lt
  have htop := hwants (m.memorySize - 1) (by omega) (by omega)
  omega

/-- Tables that match belong to a manifest that fits. -/
theorem fits_of_matches (ha : m.Asserted) (hm : m.Matches) : m.Fits := by
  obtain ⟨tables, -, hwalk, hinside⟩ := hm lowRoot fun _ => 0
  have hindex : Manifest.blockIndex m.dtbIpa < 512 :=
    index_lt_of_inside (hinside (_, m.dtbHpa ||| s2Block) (by simp [Manifest.tableWrites]))
  obtain ⟨hdtb, hdtb'⟩ := window_of_index m.dtbIpa_lt hindex
  have hdtbWalk : stage2Walk tables lowRoot.l1 m.dtbIpa = some m.dtbHpa := by
    refine (hwalk _ _).2 (.inr ⟨Nat.le_refl _, Nat.lt_add_of_pos_right (by decide), ?_⟩)
    rw [Nat.sub_self, Nat.add_zero]
  constructor
  · intro hne
    obtain ⟨hlow, hend⟩ := ram_window ha hinside hne
    exact ⟨hlow, hend, ram_host hwalk hne hend⟩
  · exact ⟨hdtb, hdtb', walk_lt hdtbWalk⟩
  · intro hlow hhigh
    have hne : m.memorySize ≠ 0 := by omega
    obtain ⟨-, hend⟩ := ram_window ha hinside hne
    have hhost := ram_host hwalk hne hend
    have ht := @translate_eq m.dtbIpa m.toGuestManifest hlow hhigh (by omega) (by omega)
    exact Option.some.inj (hdtbWalk.symm.trans ((hwalk _ _).2 (.inl ht)))

/-- Two guests that fit and whose host memory is apart share no host address. -/
theorem apart_of_fits (hf : m.Fits) (hf' : m'.Fits) (ha : m.Asserted) (ha' : m'.Asserted) (hd : m.HostDisjoint m') :
    m.Apart m' := by
  have hrange : ∀ {m : Manifest} {ipa h : Nat}, m.Fits → m.Wants ipa h →
      (m.hpaBase ≤ h ∧ h < m.hpaBase + m.memorySize) ∨ (m.dtbHpa ≤ h ∧ h < m.dtbHpa + blockSize) := by
    intro m ipa h hf hw
    rcases hw with ht | ⟨h₁, h₂, rfl⟩
    · obtain ⟨h₁, h₂, rfl⟩ := (translate_iff hf).1 ht
      exact .inl ⟨by omega, by omega⟩
    · exact .inr ⟨by omega, by omega⟩
  intro root root' mem mem' tables tables' hb hb' ipa ipa' h hw hw'
  exact hd h ⟨hrange hf ((walk_iff_wants hf ha hb).1 hw), hrange hf' ((walk_iff_wants hf' ha' hb').1 hw')⟩

end Fits

/-- **Stage-2 tables match their manifests**, stay in their frames and keep two guests with disjoint host memory apart,
exactly when both manifests fit. -/
theorem stage2_iff (m m' : Manifest) (ha : m.Asserted) (ha' : m'.Asserted) :
    (m.Matches ∧ m'.Matches ∧ (m.HostDisjoint m' → m.Apart m')) ↔ m.Fits ∧ m'.Fits := by
  constructor
  · rintro ⟨hm, hm', -⟩
    exact ⟨fits_of_matches ha hm, fits_of_matches ha' hm'⟩
  · rintro ⟨hf, hf'⟩
    exact ⟨matches_of_fits hf ha, matches_of_fits hf' ha', apart_of_fits hf hf' ha ha'⟩

/-- `GUEST_MANIFESTS`, whose numbers fit. -/
def manifests : Fin 2 → Manifest
  | 0 => ⟨guestManifests 0, by decide, by decide, by decide, by decide, by decide⟩
  | 1 => ⟨guestManifests 1, by decide, by decide, by decide, by decide, by decide⟩

/-- The two guests of the hypervisor. -/
theorem stage2_iff_manifests : (manifests 0).Asserted ∧ (manifests 1).Asserted ∧ (manifests 0).Matches ∧
    (manifests 1).Matches ∧ (manifests 0).Apart (manifests 1) := by
  have ha : ∀ i, (manifests i).Asserted := by decide
  have hf : (manifests 0).Fits ∧ (manifests 1).Fits :=
    ⟨⟨fun _ => by decide, by decide, by decide⟩, ⟨fun _ => by decide, by decide, by decide⟩⟩
  obtain ⟨hm, hm', hapart⟩ := (stage2_iff (manifests 0) (manifests 1) (ha 0) (ha 1)).2 hf
  refine ⟨ha 0, ha 1, hm, hm', hapart fun h => ?_⟩
  simp only [manifests, guestManifests, blockSize]
  omega

/-- One block of RAM at intermediate address 0. -/
def lowManifest : Manifest := ⟨⟨0, 0x40200000, 0x200000, 0x49000000, 0x48200000⟩, by decide, by decide, by decide, by decide, by decide⟩

/-- The assertions hold, and the write for the block leaves the frames. -/
theorem stage2_escapes : lowManifest.Asserted ∧ ¬ lowManifest.Matches ∧
    ∃ w ∈ lowManifest.tableWrites lowRoot, ¬ lowRoot.Inside w.1 := by
  have ha : lowManifest.Asserted := by decide
  refine ⟨ha, fun hm => ?_, (lowRoot.l21 + 8 * Manifest.blockIndex 0, 0x40200000 ||| s2Block), ?_, by decide⟩
  · have hlow := ((fits_of_matches ha hm).ram (by decide)).1
    revert hlow
    decide
  · decide

end Koros.Hv
