import Koros.Frame.Alloc
import Mathlib.Data.Nat.Bitwise

/-!
# Page-table entry formats

The encodings that `kor-arch` gives the generic page-table engine: Sv39 of riscv64, and the four-level formats of x86_64
and aarch64. An entry is a 64-bit word.

`PteFormat.Lawful` is what the engine relies on: a table entry points back to its table and is not a leaf, a 4 KiB leaf
points back to its frame. The three formats have it (`riscv64_lawful`, `x86_64_lawful`, `aarch64_lawful`); they differ in
the permissions a leaf grants (`granted`): Sv39 grants what was asked, x86_64 always reading and executing, aarch64 always
reading.
-/
set_option autoImplicit false

namespace Koros.Mmu

/-- Physical addresses that an entry can carry. -/
def physLimit : Nat := 2 ^ 48

/-- The address bits of an entry, `0xFFFF_FFFF_F000`. -/
def addressMask : Nat := 0xFFFFFFFFF000

structure MappingFlags where
  r : Bool
  w : Bool
  x : Bool
  u : Bool
deriving DecidableEq, Repr

/-- At least one access is allowed. -/
def MappingFlags.accessible (flags : MappingFlags) : Bool := flags.r || flags.w || flags.x

/-- `bit` if `b` is set. -/
def bitIf (b : Bool) (bit : Nat) : Nat := if b then bit else 0

structure PteFormat where
  /-- Number of radix levels. -/
  levels : Nat
  tableEntry : (phys : Nat) → Nat
  leafEntry : (phys : Nat) → MappingFlags → (level : Nat) → Nat
  entryPresent : (entry : Nat) → Bool
  entryIsLeaf : (entry level : Nat) → Bool
  entryPhys : (entry level : Nat) → Nat
  entryFlags : (entry : Nat) → MappingFlags

/-! ## riscv64 -/

namespace Riscv64

/-- `V`, `R | A`, `W | D`, `X` and `U`. -/
def flagsToHw (flags : MappingFlags) : Nat :=
  1 ||| bitIf flags.r (2 ||| 64) ||| bitIf flags.w (4 ||| 128) ||| bitIf flags.x 8 ||| bitIf flags.u 16

/-- Every decoded mapping is a user mapping. -/
def mappingFlags (entry : Nat) : MappingFlags :=
  ⟨entry &&& 2 ≠ 0, entry &&& 4 ≠ 0, entry &&& 8 ≠ 0, true⟩

def leafPte (phys : Nat) (flags : MappingFlags) : Nat := (phys >>> 2) ||| flagsToHw flags

/-- A level-1 megapage: the low bits of the page number come from the virtual address. -/
def megapage2mPte (phys : Nat) (flags : MappingFlags) : Nat := Frame.andNot (phys >>> 2) 0xFFC00 ||| flagsToHw flags

def tablePte (phys : Nat) : Nat := (phys >>> 2) ||| 1

def isValid (pte : Nat) : Bool := pte &&& 1 ≠ 0

/-- Any of `R`, `W`, `X` set: a leaf at every level. -/
def isLeaf (pte : Nat) : Bool := isValid pte && pte &&& 14 ≠ 0

def pteAddress (pte : Nat) : Nat := (pte <<< 2) &&& addressMask

end Riscv64

def riscv64 : PteFormat where
  levels := 3
  tableEntry := Riscv64.tablePte
  leafEntry := fun phys flags level =>
    if level = 1 then Riscv64.megapage2mPte phys flags else Riscv64.leafPte phys flags
  entryPresent := Riscv64.isValid
  entryIsLeaf := fun entry _ => Riscv64.isLeaf entry
  entryPhys := fun entry _ => Riscv64.pteAddress entry
  entryFlags := Riscv64.mappingFlags

/-! ## x86_64 -/

namespace X86

/-- `P`, `RW` and `US`; present implies readable and executable. -/
def hwFlags (flags : MappingFlags) : Nat := 1 ||| bitIf flags.w 2 ||| bitIf flags.u 4

def leafPte4k (phys : Nat) (flags : MappingFlags) : Nat := phys ||| hwFlags flags

def leafPte2m (phys : Nat) (flags : MappingFlags) : Nat := phys ||| hwFlags flags ||| 128

def tablePte (phys : Nat) : Nat := phys ||| 1 ||| 2 ||| 4

def isPresent (pte : Nat) : Bool := pte &&& 1 ≠ 0

def isHuge (pte : Nat) : Bool := pte &&& 128 ≠ 0

def pteAddress (pte : Nat) : Nat := pte &&& addressMask

def entryFlags (entry : Nat) : MappingFlags := ⟨true, entry &&& 2 ≠ 0, true, entry &&& 4 ≠ 0⟩

end X86

def x86_64 : PteFormat where
  levels := 4
  tableEntry := X86.tablePte
  leafEntry := fun phys flags level => if level = 0 then X86.leafPte4k phys flags else X86.leafPte2m phys flags
  entryPresent := X86.isPresent
  entryIsLeaf := fun entry level => if level = 0 then X86.isPresent entry else X86.isHuge entry
  entryPhys := fun entry _ => X86.pteAddress entry
  entryFlags := X86.entryFlags

/-! ## aarch64 -/

namespace Aarch64

/-- `UXN`, unprivileged execute-never. -/
def uxn : Nat := 2 ^ 54

/-- Read-only unless `W`, `EL0` access for `U`, execute-never unless `X`. -/
def apFlags (flags : MappingFlags) : Nat := bitIf (!flags.w) 128 ||| bitIf flags.u 64 ||| bitIf (!flags.x) uxn

/-- `VALID | TABLE | AF | ATTR` and the permissions. -/
def pagePte (phys : Nat) (flags : MappingFlags) : Nat := phys ||| 1 ||| 2 ||| 1024 ||| 4 ||| apFlags flags

def blockPte (phys : Nat) (flags : MappingFlags) : Nat := phys ||| 1 ||| 1024 ||| 4 ||| apFlags flags

def isValid (pte : Nat) : Bool := pte &&& 1 ≠ 0

def isBlock (pte : Nat) : Bool := isValid pte && pte &&& 2 == 0

def pteAddress (pte : Nat) : Nat := pte &&& addressMask

def entryFlags (entry : Nat) : MappingFlags := ⟨true, entry &&& 128 == 0, entry &&& uxn == 0, entry &&& 64 ≠ 0⟩

end Aarch64

def aarch64 : PteFormat where
  levels := 4
  tableEntry := fun phys => phys ||| 1 ||| 2
  leafEntry := fun phys flags level => if level = 0 then Aarch64.pagePte phys flags else Aarch64.blockPte phys flags
  entryPresent := Aarch64.isValid
  entryIsLeaf := fun entry level => if level = 0 then Aarch64.isValid entry else Aarch64.isBlock entry
  entryPhys := fun entry _ => Aarch64.pteAddress entry
  entryFlags := Aarch64.entryFlags

/-! ## The laws -/

namespace PteFormat

/-- The permissions that a 4 KiB leaf written for `flags` grants. -/
def granted (F : PteFormat) (flags : MappingFlags) : MappingFlags := F.entryFlags (F.leafEntry 0 flags 0)

/-- The 4 KiB entry written for `flags` is a leaf. On riscv64 one without `R`, `W` and `X` is not: it has the form of a pointer. -/
def encodes (F : PteFormat) (flags : MappingFlags) : Bool := F.entryIsLeaf (F.leafEntry 0 flags 0) 0

/-- What the engine relies on, for frames that an entry can carry. -/
structure Lawful (F : PteFormat) : Prop where
  two_le_levels : 2 ≤ F.levels
  present_zero : F.entryPresent 0 = false
  table_present : ∀ q < 2 ^ 36, F.entryPresent (F.tableEntry (q <<< 12)) = true
  table_not_leaf : ∀ q < 2 ^ 36, ∀ level, F.entryIsLeaf (F.tableEntry (q <<< 12)) (level + 1) = false
  table_phys : ∀ q < 2 ^ 36, ∀ level, F.entryPhys (F.tableEntry (q <<< 12)) level = q <<< 12
  leaf_present : ∀ q < 2 ^ 36, ∀ flags, F.entryPresent (F.leafEntry (q <<< 12) flags 0) = true
  leaf_isLeaf : ∀ q < 2 ^ 36, ∀ flags, F.entryIsLeaf (F.leafEntry (q <<< 12) flags 0) 0 = F.encodes flags
  encodes_accessible : ∀ flags : MappingFlags, flags.accessible → F.encodes flags
  leaf_phys : ∀ q < 2 ^ 36, ∀ flags level, F.entryPhys (F.leafEntry (q <<< 12) flags 0) level = q <<< 12
  leaf_flags : ∀ q < 2 ^ 36, ∀ flags, F.entryFlags (F.leafEntry (q <<< 12) flags 0) = F.granted flags

end PteFormat

section Bits

/-- A mask of low bits does not see the address part of an entry. -/
theorem or_and_low {q f k m : Nat} (hm : m < 2 ^ k) : ((q <<< k) ||| f) &&& m = f &&& m := by
  apply Nat.eq_of_testBit_eq
  intro i
  simp only [Nat.testBit_and, Nat.testBit_or, Nat.testBit_shiftLeft]
  by_cases hi : k ≤ i
  · have hmi : m.testBit i = false := Nat.testBit_lt_two_pow (Nat.lt_of_lt_of_le hm (Nat.pow_le_pow_right (by decide) hi))
    simp [hmi]
  · simp [hi]

theorem testBit_addressMask (i : Nat) : addressMask.testBit i = (decide (12 ≤ i) && decide (i < 48)) := by
  have h : addressMask = (2 ^ 36 - 1) <<< 12 := by decide
  rw [h, Nat.testBit_shiftLeft, Nat.testBit_two_pow_sub_one]
  by_cases hi : 12 ≤ i
  · simp only [ge_iff_le, hi, decide_true, Bool.true_and]
    congr 1
    exact propext ⟨by omega, by omega⟩
  · simp [hi]

/-- The address bits of an entry whose flags are outside them. -/
theorem and_addressMask {q f : Nat} (hq : q < 2 ^ 36) (hf : f &&& addressMask = 0) :
    ((q <<< 12) ||| f) &&& addressMask = q <<< 12 := by
  rw [Nat.and_or_distrib_right, hf, Nat.or_zero]
  apply Nat.eq_of_testBit_eq
  intro i
  rw [Nat.testBit_and, testBit_addressMask, Nat.testBit_shiftLeft]
  by_cases hi : i < 48
  · by_cases h12 : 12 ≤ i <;> simp [hi, h12]
  · have hqi : q.testBit (i - 12) = false :=
      Nat.testBit_lt_two_pow (Nat.lt_of_lt_of_le hq (Nat.pow_le_pow_right (by decide) (by omega)))
    simp [hqi]

/-- A mask outside the address bits sees only the flags. -/
theorem or_and_of_disjoint {a f m : Nat} (h : a &&& m = 0) : (a ||| f) &&& m = f &&& m := by
  rw [Nat.and_or_distrib_right, h, Nat.zero_or]

theorem shiftLeft_and_uxn {q : Nat} (hq : q < 2 ^ 36) : (q <<< 12) &&& Aarch64.uxn = 0 := by
  apply Nat.eq_of_testBit_eq
  intro i
  rw [Nat.testBit_and, Aarch64.uxn, Nat.testBit_two_pow, Nat.testBit_shiftLeft, Nat.zero_testBit]
  by_cases hi : 54 = i
  · subst hi
    have hqi : q.testBit (54 - 12) = false := Nat.testBit_lt_two_pow (Nat.lt_of_lt_of_le hq (by decide))
    simp [hqi]
  · simp [hi]

theorem shiftLeft_shiftRight_two (q : Nat) : (q <<< 12) >>> 2 = q <<< 10 := by
  simp only [Nat.shiftLeft_eq, Nat.shiftRight_eq_div_pow]
  omega

end Bits

/-! ## riscv64 -/

namespace Riscv64

theorem leafPte_shift (q : Nat) (flags : MappingFlags) : leafPte (q <<< 12) flags = (q <<< 10) ||| flagsToHw flags := by
  rw [leafPte, shiftLeft_shiftRight_two]

theorem tablePte_shift (q : Nat) : tablePte (q <<< 12) = (q <<< 10) ||| 1 := by
  rw [tablePte, shiftLeft_shiftRight_two]

theorem pteAddress_or {q f : Nat} (hq : q < 2 ^ 36) (hf : (f <<< 2) &&& addressMask = 0) :
    pteAddress ((q <<< 10) ||| f) = q <<< 12 := by
  rw [pteAddress, Nat.shiftLeft_or_distrib, ← Nat.shiftLeft_add]
  exact and_addressMask hq hf

end Riscv64

theorem riscv64_lawful : riscv64.Lawful where
  two_le_levels := by decide
  present_zero := by decide
  table_present := fun q _ => by
    simp only [riscv64, Riscv64.tablePte_shift, Riscv64.isValid, or_and_low (m := 1) (k := 10) (by decide)]
    decide
  table_not_leaf := fun q _ level => by
    simp only [riscv64, Riscv64.tablePte_shift, Riscv64.isLeaf, or_and_low (m := 14) (k := 10) (by decide)]
    simp
  table_phys := fun q hq level => by
    simp only [riscv64, Riscv64.tablePte_shift]
    exact Riscv64.pteAddress_or hq (by decide)
  leaf_present := fun q _ flags => by
    simp only [riscv64, Nat.zero_ne_one, if_false, Riscv64.leafPte_shift, Riscv64.isValid,
      or_and_low (m := 1) (k := 10) (by decide)]
    obtain ⟨r, w, x, u⟩ := flags
    revert r w x u; decide
  leaf_isLeaf := fun q _ flags => by
    have h0 : Riscv64.leafPte 0 flags = Riscv64.leafPte (0 <<< 12) flags := rfl
    simp only [PteFormat.encodes, riscv64, Nat.zero_ne_one, if_false, h0, Riscv64.leafPte_shift, Riscv64.isLeaf, Riscv64.isValid,
      or_and_low (m := 1) (k := 10) (by decide), or_and_low (m := 14) (k := 10) (by decide)]
  encodes_accessible := by
    rintro ⟨r, w, x, u⟩
    revert r w x u; decide
  leaf_phys := fun q hq flags level => by
    simp only [riscv64, Nat.zero_ne_one, if_false, Riscv64.leafPte_shift]
    refine Riscv64.pteAddress_or hq ?_
    obtain ⟨r, w, x, u⟩ := flags
    revert r w x u; decide
  leaf_flags := fun q _ flags => by
    have h0 : Riscv64.leafPte 0 flags = Riscv64.leafPte (0 <<< 12) flags := rfl
    simp only [PteFormat.granted, riscv64, Nat.zero_ne_one, if_false, h0, Riscv64.leafPte_shift, Riscv64.mappingFlags,
      or_and_low (m := 2) (k := 10) (by decide), or_and_low (m := 4) (k := 10) (by decide),
      or_and_low (m := 8) (k := 10) (by decide)]

/-- Sv39 needs one access to tell a leaf from a pointer. -/
theorem riscv64_encodes (flags : MappingFlags) : riscv64.encodes flags = flags.accessible := by
  obtain ⟨r, w, x, u⟩ := flags
  revert r w x u; decide

/-! ## x86_64 -/

theorem x86_64_lawful : x86_64.Lawful where
  two_le_levels := by decide
  present_zero := by decide
  table_present := fun q _ => by
    simp only [x86_64, X86.tablePte, X86.isPresent, Nat.or_assoc, or_and_low (m := 1) (k := 12) (by decide)]
    decide
  table_not_leaf := fun q _ level => by
    simp only [x86_64, X86.tablePte, Nat.add_one_ne_zero, if_false, X86.isHuge, Nat.or_assoc,
      or_and_low (m := 128) (k := 12) (by decide)]
    decide
  table_phys := fun q hq level => by
    simp only [x86_64, X86.tablePte, Nat.or_assoc]
    exact and_addressMask hq (by decide)
  leaf_present := fun q _ flags => by
    simp only [x86_64, if_true, X86.leafPte4k, X86.isPresent, or_and_low (m := 1) (k := 12) (by decide)]
    obtain ⟨r, w, x, u⟩ := flags
    revert r w x u; decide
  leaf_isLeaf := fun q _ flags => by
    simp only [PteFormat.encodes, x86_64, if_true, X86.leafPte4k, X86.isPresent, Nat.zero_or,
      or_and_low (m := 1) (k := 12) (by decide)]
  encodes_accessible := by
    rintro ⟨r, w, x, u⟩
    revert r w x u; decide
  leaf_phys := fun q hq flags level => by
    simp only [x86_64, if_true, X86.leafPte4k]
    refine and_addressMask hq ?_
    obtain ⟨r, w, x, u⟩ := flags
    revert r w x u; decide
  leaf_flags := fun q _ flags => by
    simp only [PteFormat.granted, x86_64, if_true, X86.leafPte4k, X86.entryFlags, Nat.zero_or,
      or_and_low (m := 2) (k := 12) (by decide), or_and_low (m := 4) (k := 12) (by decide)]

/-- x86_64 never sets NX: every present page can be read and executed. -/
theorem x86_64_granted (flags : MappingFlags) : x86_64.granted flags = { flags with r := true, x := true } := by
  obtain ⟨r, w, x, u⟩ := flags
  revert r w x u; decide

theorem x86_64_encodes (flags : MappingFlags) : x86_64.encodes flags = true := by
  obtain ⟨r, w, x, u⟩ := flags
  revert r w x u; decide

/-! ## aarch64 -/

theorem aarch64_lawful : aarch64.Lawful where
  two_le_levels := by decide
  present_zero := by decide
  table_present := fun q _ => by
    simp only [aarch64, Aarch64.isValid, Nat.or_assoc, or_and_low (m := 1) (k := 12) (by decide)]
    decide
  table_not_leaf := fun q _ level => by
    simp only [aarch64, Nat.add_one_ne_zero, if_false, Aarch64.isBlock, Nat.or_assoc,
      or_and_low (m := 2) (k := 12) (by decide)]
    simp
  table_phys := fun q hq level => by
    simp only [aarch64, Nat.or_assoc]
    exact and_addressMask hq (by decide)
  leaf_present := fun q _ flags => by
    simp only [aarch64, if_true, Aarch64.pagePte, Aarch64.isValid, Nat.or_assoc,
      or_and_low (m := 1) (k := 12) (by decide)]
    obtain ⟨r, w, x, u⟩ := flags
    revert r w x u; decide
  leaf_isLeaf := fun q _ flags => by
    simp only [PteFormat.encodes, aarch64, if_true, Aarch64.pagePte, Aarch64.isValid, Nat.or_assoc, Nat.zero_or,
      or_and_low (m := 1) (k := 12) (by decide)]
  encodes_accessible := by
    rintro ⟨r, w, x, u⟩
    revert r w x u; decide
  leaf_phys := fun q hq flags level => by
    simp only [aarch64, if_true, Aarch64.pagePte, Nat.or_assoc]
    refine and_addressMask hq ?_
    obtain ⟨r, w, x, u⟩ := flags
    revert r w x u; decide
  leaf_flags := fun q hq flags => by
    simp only [PteFormat.granted, aarch64, if_true, Aarch64.pagePte, Aarch64.entryFlags, Nat.or_assoc, Nat.zero_or,
      or_and_low (m := 128) (k := 12) (by decide), or_and_low (m := 64) (k := 12) (by decide),
      or_and_of_disjoint (shiftLeft_and_uxn hq)]

/-- aarch64 lets every valid page be read. -/
theorem aarch64_granted (flags : MappingFlags) : aarch64.granted flags = { flags with r := true } := by
  obtain ⟨r, w, x, u⟩ := flags
  revert r w x u; decide

theorem aarch64_encodes (flags : MappingFlags) : aarch64.encodes flags = true := by
  obtain ⟨r, w, x, u⟩ := flags
  revert r w x u; decide

/-! ## Leaves of any level -/

/-- What the engine relies on when it splits a leaf: a leaf of any level is present, and what takes the place of a larger
leaf is a leaf again. -/
structure PteFormat.Splits (F : PteFormat) : Prop where
  leaf_present : ∀ phys flags level, F.entryPresent (F.leafEntry phys flags level) = true
  filler_leaf : ∀ entry level phys, F.entryIsLeaf entry (level + 1) = true → F.entryPresent entry = true →
    phys % 4096 = 0 → F.entryIsLeaf (F.leafEntry phys (F.entryFlags entry) level) level = true
  phys_aligned : ∀ entry level, F.entryPhys entry level % 4096 = 0

/-- Bits of one part of an entry. -/
theorem or_and_ne_zero {a f m : Nat} (h : f &&& m ≠ 0) : (a ||| f) &&& m ≠ 0 := by
  rw [Nat.and_or_distrib_right]
  intro h₀
  exact h (Nat.or_eq_zero_iff.1 h₀).2

theorem and_addressMask_mod (a : Nat) : (a &&& addressMask) % 4096 = 0 := by
  have h : ∀ x, x % 4096 = x &&& 4095 := fun x => (Nat.and_two_pow_sub_one_eq_mod x 12).symm
  rw [h, Nat.and_assoc]
  exact Nat.and_zero a

theorem riscv64_splits : riscv64.Splits where
  leaf_present := fun phys flags level => by
    have hv : Riscv64.flagsToHw flags &&& 1 ≠ 0 := by
      obtain ⟨r, w, x, u⟩ := flags
      revert r w x u; decide
    simp only [riscv64, Riscv64.isValid, Riscv64.megapage2mPte, Riscv64.leafPte, decide_eq_true_eq]
    split <;> exact or_and_ne_zero hv
  filler_leaf := fun entry level phys hleaf _ _ => by
    simp only [riscv64, Riscv64.isLeaf, Riscv64.isValid, Bool.and_eq_true, decide_eq_true_eq] at hleaf
    have hany : entry &&& 2 ≠ 0 ∨ entry &&& 4 ≠ 0 ∨ entry &&& 8 ≠ 0 := by
      by_contra hno
      simp only [not_or, not_not] at hno
      have hor : entry &&& 14 = entry &&& 2 ||| entry &&& 4 ||| entry &&& 8 := by
        rw [← Nat.and_or_distrib_left, ← Nat.and_or_distrib_left]
        rfl
      exact hleaf.2 (by rw [hor, hno.1, hno.2.1, hno.2.2]; rfl)
    have hbits : ∀ r w x : Bool, r ∨ w ∨ x →
        Riscv64.flagsToHw ⟨r, w, x, true⟩ &&& 1 ≠ 0 ∧ Riscv64.flagsToHw ⟨r, w, x, true⟩ &&& 14 ≠ 0 := by decide
    have hf := hbits (entry &&& 2 ≠ 0) (entry &&& 4 ≠ 0) (entry &&& 8 ≠ 0) (by simpa only [decide_eq_true_eq] using hany)
    simp only [riscv64, Riscv64.isLeaf, Riscv64.isValid, Riscv64.megapage2mPte, Riscv64.leafPte, Bool.and_eq_true,
      decide_eq_true_eq]
    split <;> exact ⟨or_and_ne_zero hf.1, or_and_ne_zero hf.2⟩
  phys_aligned := fun entry level => and_addressMask_mod _

theorem x86_64_splits : x86_64.Splits where
  leaf_present := fun phys flags level => by
    have hv : X86.hwFlags flags &&& 1 ≠ 0 := by
      obtain ⟨r, w, x, u⟩ := flags
      revert r w x u; decide
    simp only [x86_64, X86.isPresent, X86.leafPte4k, X86.leafPte2m, decide_eq_true_eq]
    split
    · exact or_and_ne_zero hv
    · rw [Nat.or_comm]
      exact or_and_ne_zero (or_and_ne_zero hv)
  filler_leaf := fun entry level phys _ _ _ => by
    have hv : X86.hwFlags (X86.entryFlags entry) &&& 1 ≠ 0 := by
      generalize X86.entryFlags entry = flags
      obtain ⟨r, w, x, u⟩ := flags
      revert r w x u; decide
    have hh : 128 &&& 128 ≠ 0 := by decide
    simp only [x86_64]
    split
    · exact decide_eq_true (or_and_ne_zero hv)
    · exact decide_eq_true (or_and_ne_zero hh)
  phys_aligned := fun entry level => and_addressMask_mod _

theorem aarch64_splits : aarch64.Splits where
  leaf_present := fun phys flags level => by
    simp only [aarch64, Aarch64.isValid, Aarch64.pagePte, Aarch64.blockPte, decide_eq_true_eq, Nat.or_assoc]
    obtain ⟨r, w, x, u⟩ := flags
    split <;> apply or_and_ne_zero <;> revert r w x u <;> decide
  filler_leaf := fun entry level phys _ _ hphys => by
    obtain ⟨q, rfl⟩ : ∃ q, phys = q <<< 12 := ⟨phys / 4096, by rw [Nat.shiftLeft_eq]; omega⟩
    simp only [aarch64]
    generalize Aarch64.entryFlags entry = flags
    obtain ⟨r, w, x, u⟩ := flags
    split
    · simp only [Aarch64.isValid, Aarch64.pagePte, Nat.or_assoc, or_and_low (m := 1) (k := 12) (by decide)]
      revert r w x u; decide
    · simp only [Aarch64.isBlock, Aarch64.isValid, Aarch64.blockPte, Nat.or_assoc,
        or_and_low (m := 1) (k := 12) (by decide), or_and_low (m := 2) (k := 12) (by decide)]
      revert r w x u; decide
  phys_aligned := fun entry level => and_addressMask_mod _

end Koros.Mmu
