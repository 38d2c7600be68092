import Koros.Mmu.Split

/-!
# Leaves and tables read back

`leaf_entry` writes a frame and its flags into one word, and `entry_phys`, `entry_flags`, `entry_present` and
`entry_is_leaf` read it. Each format allows some accesses whatever was asked (`alwaysGranted`): x86_64 reading and
executing, aarch64 reading, riscv64 none.

- `leaf_reads_back_iff`: a leaf of any level reads back as it was written, exactly unless the architecture is riscv64 and
  the flags allow no access, or are not for the user, or the frame of a 2 MiB leaf has bit 21 set.

On riscv64 a valid entry without `R`, `W` and `X` is a pointer to a table, `mapping_flags` starts from `U` instead of
reading the bit, and the mask of `megapage_2m_pte` is one bit too wide.
-/
set_option autoImplicit false

namespace Koros.Mmu

open Koros.Frame

/-- What either allows. -/
def MappingFlags.union (f g : MappingFlags) : MappingFlags := ⟨f.r || g.r, f.w || g.w, f.x || g.x, f.u || g.u⟩

/-- The accesses that the documentation of a format grants to every present entry. -/
def Arch.alwaysGranted : Arch → MappingFlags
  | .riscv64 => ⟨false, false, false, false⟩
  | .x86_64 => ⟨true, false, true, false⟩
  | .aarch64 => ⟨true, false, false, false⟩

/-- A leaf is present, is a leaf, and leads to its frame with its flags. -/
def LeafReadsBack (H : Arch) (level phys : Nat) (flags : MappingFlags) : Prop :=
  let entry := H.format.leafEntry phys flags level
  H.format.entryPresent entry = true ∧ H.format.entryIsLeaf entry level = true ∧
    H.format.entryPhys entry level = phys ∧ H.format.entryFlags entry = flags.union H.alwaysGranted

/-- An entry for a table is present, is no leaf, and leads to the table. -/
def TableReadsBack (H : Arch) (level phys : Nat) : Prop :=
  let entry := H.format.tableEntry phys
  H.format.entryPresent entry = true ∧ H.format.entryIsLeaf entry level = false ∧ H.format.entryPhys entry level = phys

section Parts

variable {q level : Nat} {flags : MappingFlags}

theorem tableReadsBack {H : Arch} {phys : Nat} (hok : FrameOk phys) (hlevel : 0 < level) :
    TableReadsBack H level phys := by
  obtain ⟨q, hq, rfl⟩ := hok.exists_shift
  obtain ⟨l, rfl⟩ : ∃ l, level = l + 1 := ⟨level - 1, by omega⟩
  have hlaw := lawful_of_mem H.format_mem
  exact ⟨hlaw.table_present q hq, hlaw.table_not_leaf q hq l, hlaw.table_phys q hq (l + 1)⟩

theorem x86_64_readsBack (hq : q < 2 ^ 36) : LeafReadsBack .x86_64 level (q <<< 12) flags := by
  obtain ⟨r, w, x, u⟩ := flags
  by_cases hl : level = 0
  all_goals
    simp only [LeafReadsBack, Arch.format, x86_64, hl, if_true, if_false, X86.leafPte4k, X86.leafPte2m, X86.isPresent,
      X86.isHuge, X86.pteAddress, X86.entryFlags, Nat.or_assoc, or_and_low (m := 1) (k := 12) (by decide),
      or_and_low (m := 2) (k := 12) (by decide), or_and_low (m := 4) (k := 12) (by decide),
      or_and_low (m := 128) (k := 12) (by decide)]
    refine ⟨?_, ?_, and_addressMask hq ?_, ?_⟩ <;> revert r w x u <;> decide

theorem aarch64_readsBack (hq : q < 2 ^ 36) : LeafReadsBack .aarch64 level (q <<< 12) flags := by
  obtain ⟨r, w, x, u⟩ := flags
  by_cases hl : level = 0
  all_goals
    simp only [LeafReadsBack, Arch.format, aarch64, hl, if_true, if_false, Aarch64.pagePte, Aarch64.blockPte,
      Aarch64.isValid, Aarch64.isBlock, Aarch64.pteAddress, Aarch64.entryFlags, Nat.or_assoc,
      or_and_low (m := 1) (k := 12) (by decide), or_and_low (m := 2) (k := 12) (by decide),
      or_and_low (m := 64) (k := 12) (by decide), or_and_low (m := 128) (k := 12) (by decide),
      or_and_of_disjoint (shiftLeft_and_uxn hq)]
    refine ⟨?_, ?_, and_addressMask hq ?_, ?_⟩ <;> revert r w x u <;> decide

/-- The page number that a leaf of Sv39 keeps: that of a 2 MiB leaf loses its ten low bits. -/
def keptPage (q level : Nat) : Nat := if level = 1 then q / 2 ^ 10 * 2 ^ 10 else q

theorem keptPage_lt (hq : q < 2 ^ 36) : keptPage q level < 2 ^ 36 := by
  unfold keptPage
  split <;> omega

theorem riscv64_leafEntry (hq : q < 2 ^ 36) :
    riscv64.leafEntry (q <<< 12) flags level = (keptPage q level <<< 10) ||| Riscv64.flagsToHw flags := by
  by_cases hl : level = 1
  · have hmask : ∀ i, (usizeMax ^^^ 0xFFC00).testBit i = (decide (i < 64) && (decide (i < 10) || decide (20 ≤ i))) := by
      intro i
      have h₁ : usizeMax = 2 ^ 64 - 1 := by decide
      have h₂ : 0xFFC00 = (2 ^ 10 - 1) <<< 10 := by decide
      rw [h₁, h₂, Nat.testBit_xor, Nat.testBit_shiftLeft, Nat.testBit_two_pow_sub_one, Nat.testBit_two_pow_sub_one]
      grind
    simp only [riscv64, hl, if_true, keptPage, Riscv64.megapage2mPte, shiftLeft_shiftRight_two]
    congr 1
    apply Nat.eq_of_testBit_eq
    intro i
    have hdiv : q / 2 ^ 10 * 2 ^ 10 = (q >>> 10) <<< 10 := by rw [Nat.shiftLeft_eq, Nat.shiftRight_eq_div_pow]
    rw [Frame.andNot, Nat.testBit_and, hmask, hdiv, Nat.testBit_shiftLeft, Nat.testBit_shiftLeft, Nat.testBit_shiftLeft,
      Nat.testBit_shiftRight]
    have hhigh : 46 ≤ i → q.testBit (i - 10) = false := fun hi =>
      Nat.testBit_lt_two_pow (Nat.lt_of_lt_of_le hq (Nat.pow_le_pow_right (by decide) (by omega)))
    by_cases h20 : 20 ≤ i
    · have hi : 10 + (i - 10 - 10) = i - 10 := by omega
      rw [hi]
      by_cases h46 : 46 ≤ i
      · simp [hhigh h46]
      · have h64 : i < 64 := by omega
        have h10 : 10 ≤ i := by omega
        have h10' : 10 ≤ i - 10 := by omega
        simp [h20, h64, h10, h10']
    · have h10 : ¬ 10 ≤ i - 10 := by omega
      by_cases hlow : i < 10
      · have : ¬ 10 ≤ i := by omega
        simp [this]
      · simp [h20, h10, hlow]
  · simp only [riscv64, hl, if_false, keptPage, Riscv64.leafPte_shift]

theorem riscv64_flagsToHw_shift (flags : MappingFlags) : (Riscv64.flagsToHw flags <<< 2) &&& addressMask = 0 := by
  obtain ⟨r, w, x, u⟩ := flags
  revert r w x u
  decide

theorem riscv64_readsBack_iff (hq : q < 2 ^ 36) : LeafReadsBack .riscv64 level (q <<< 12) flags ↔
    flags.accessible = true ∧ flags.u = true ∧ keptPage q level = q := by
  have hlt : keptPage q level < 2 ^ 36 := keptPage_lt hq
  have hphys := Riscv64.pteAddress_or hlt (riscv64_flagsToHw_shift flags)
  have hshift : keptPage q level <<< 12 = q <<< 12 ↔ keptPage q level = q := by
    simp only [Nat.shiftLeft_eq]
    omega
  have hbits : ∀ f : MappingFlags,
      (decide (Riscv64.flagsToHw f &&& 1 ≠ 0) = true ∧
        (decide (Riscv64.flagsToHw f &&& 1 ≠ 0) && decide (Riscv64.flagsToHw f &&& 14 ≠ 0)) = true ∧
        (⟨decide (Riscv64.flagsToHw f &&& 2 ≠ 0), decide (Riscv64.flagsToHw f &&& 4 ≠ 0),
          decide (Riscv64.flagsToHw f &&& 8 ≠ 0), true⟩ : MappingFlags) = f.union Arch.riscv64.alwaysGranted) ↔
      f.accessible = true ∧ f.u = true := by
    rintro ⟨r, w, x, u⟩
    revert r w x u
    decide
  have hf := hbits flags
  simp only [LeafReadsBack, Arch.format, riscv64_leafEntry hq]
  simp only [riscv64, Riscv64.isValid, Riscv64.isLeaf, Riscv64.mappingFlags, or_and_low (m := 1) (k := 10) (by decide),
    or_and_low (m := 2) (k := 10) (by decide), or_and_low (m := 4) (k := 10) (by decide),
    or_and_low (m := 8) (k := 10) (by decide), or_and_low (m := 14) (k := 10) (by decide), hphys, hshift]
  constructor
  · rintro ⟨h₁, h₂, h₃, h₄⟩
    obtain ⟨ha, hu⟩ := hf.1 ⟨h₁, h₂, h₄⟩
    exact ⟨ha, hu, h₃⟩
  · rintro ⟨ha, hu, h₃⟩
    obtain ⟨h₁, h₂, h₄⟩ := hf.2 ⟨ha, hu⟩
    exact ⟨h₁, h₂, h₃, h₄⟩

end Parts

/-- The writes that read back. -/
def CodecFits (H : Arch) (level phys : Nat) (flags : MappingFlags) : Prop :=
  H = .riscv64 → flags.accessible = true ∧ flags.u = true ∧ (level = 1 → phys % 2 ^ 22 = 0)

/-- **Leaves of every level read back as they were written exactly if `CodecFits`; entries for tables always do.** -/
theorem leaf_reads_back_iff (H : Arch) {level phys table tableLevel : Nat} (flags : MappingFlags)
    (hlevel : level < H.format.levels) (halign : phys % span level = 0) (hphys : phys < physLimit)
    (htable : table % span 0 = 0) (htablePhys : table < physLimit) (habove : 0 < tableLevel)
    (htableLevel : tableLevel < H.format.levels) :
    (LeafReadsBack H level phys flags ↔ CodecFits H level phys flags) ∧ TableReadsBack H tableLevel table := by
  have h₀ : span 0 = pageSize := by decide
  refine ⟨?_, tableReadsBack ⟨by rw [← h₀]; exact htable, htablePhys⟩ habove⟩
  have hpage : phys % pageSize = 0 := by
    rw [← h₀]
    rw [span_two_pow] at halign ⊢
    exact Nat.mod_eq_zero_of_dvd (Dvd.dvd.trans (Nat.pow_dvd_pow 2 (by omega)) (Nat.dvd_of_mod_eq_zero halign))
  obtain ⟨q, hq, rfl⟩ := FrameOk.exists_shift ⟨hpage, hphys⟩
  cases H with
  | x86_64 => simp [CodecFits, x86_64_readsBack hq]
  | aarch64 => simp [CodecFits, aarch64_readsBack hq]
  | riscv64 =>
    have hkept : keptPage q level = q ↔ (level = 1 → (q <<< 12) % 2 ^ 22 = 0) := by
      unfold keptPage
      rw [Nat.shiftLeft_eq]
      split
      · simp only [*, true_implies]
        omega
      · simp [*]
    simp only [CodecFits, true_implies, riscv64_readsBack_iff hq, hkept]

/-- A 2 MiB leaf of riscv64 for user memory at 4 MiB. -/
theorem leaf_reads_back_iff_megapage : LeafReadsBack .riscv64 1 0x400000 ⟨true, true, false, true⟩ ∧
    TableReadsBack .riscv64 2 0x80000000 := by
  have h : (LeafReadsBack .riscv64 1 0x400000 ⟨true, true, false, true⟩ ↔
      CodecFits .riscv64 1 0x400000 ⟨true, true, false, true⟩) ∧ TableReadsBack .riscv64 2 0x80000000 :=
    leaf_reads_back_iff .riscv64 ⟨true, true, false, true⟩ (by decide) (by decide) (by decide) (by decide) (by decide) (by decide) (by decide)
  exact ⟨h.1.2 fun _ => by decide, h.2⟩

/-- The 2 MiB leaf of riscv64 for the frame at 2 MiB leads to frame 0. -/
theorem megapage_loses_frame : (0x200000 % span 1 = 0 ∧ 0x200000 < physLimit ∧ 1 < Arch.riscv64.format.levels) ∧
    ¬ LeafReadsBack .riscv64 1 0x200000 ⟨true, true, false, true⟩ ∧
    riscv64.entryPhys (riscv64.leafEntry 0x200000 ⟨true, true, false, true⟩ 1) 1 = 0 := by
  unfold LeafReadsBack
  decide

end Koros.Mmu
