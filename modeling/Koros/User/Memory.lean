import Koros.Lib.Partial
import Koros.Mm.Calls

/-!
# User memory by bytes

`AddressSpace::write` and `validate_range` of `korix/src/mm/mod.rs`, and the copies through the direct map that the loader
makes. `userByte` is what a user address holds, by the map of the pages.

- `setByte_stays`, `copyTo_stays`: a copy into a page of the map changes the bytes of its range and nothing else;
- `write_stays`: so does a successful `write`, over any number of pages;
- `mapZeroed_bytes`: a new page is zero, and the others are as they were.
-/
set_option autoImplicit false

namespace Koros.Mm

open Koros.Frame Koros.Mmu Koros.Lib

/-- The byte at a physical address. -/
def getByte (s : Memory) (paddr : Nat) : Byte :=
  BitVec.ofNat 8 (s.mem (paddr / pageSize * pageSize) (paddr % pageSize / 8) / 256 ^ (paddr % 8))

/-- `copy_nonoverlapping` of the bytes to `phys_to_virt(paddr)`. -/
def copyTo : (s : Memory) → (paddr : Nat) → List Byte → Memory
  | s, _, [] => s
  | s, paddr, b :: bytes => copyTo (setByte s paddr b.toNat) (paddr + 1) bytes

namespace AddressSpace

variable (arch : Arch)

/-- The page is mapped, and writable if asked. -/
def pageAllowed (space : AddressSpace) (write : Bool) (page : Nat) : Bool :=
  match space.pages[page]? with
  | none => false
  | some mapping => !(write && !mapping.flags.w)

/-- The loop of `validate_range`, with `n` pages to go after `page`. -/
def pagesAllowed (space : AddressSpace) (write : Bool) : (n page : Nat) → Bool
  | 0, page => space.pageAllowed write page
  | n + 1, page => space.pageAllowed write page && (checkedAdd page pageSize).any fun next =>
    pagesAllowed space write n next

def validateRange (space : AddressSpace) (address length : Nat) (write : Bool) : Bool :=
  if length = 0 then decide (address < arch.userAddressLimit)
  else
    match checkedAdd address length with
    | none => false
    | some stop =>
      if address ≥ arch.userAddressLimit ∨ stop > arch.userAddressLimit then false
      else space.pagesAllowed write ((pageOf (stop - 1) - pageOf address) / pageSize) (pageOf address)

/-- The loop of `write`, one chunk of a page in a turn; `fuel` is at least the number of bytes. -/
def writeLoop (space : AddressSpace) (vaddr : Nat) :
    (fuel written : Nat) → (bytes : List Byte) → Memory → Except MapError Unit × Memory
  | _, _, [], s => (.ok (), s)
  | 0, _, _ :: _, s => (.error .blockedByExistingMapping, s)
  | fuel + 1, written, b :: rest, s =>
    match checkedAdd vaddr written with
    | none => (.error .blockedByExistingMapping, s)
    | some address =>
      match space.translate address with
      | none => (.error .blockedByExistingMapping, s)
      | some paddr =>
        let bytes := b :: rest
        let chunk := min (pageSize - address % pageSize) bytes.length
        writeLoop space vaddr fuel (written + chunk) (bytes.drop chunk) (copyTo s paddr (bytes.take chunk))

def write (space : AddressSpace) (m : Machine) (vaddr : Nat) (bytes : List Byte) : Except MapError Unit × Machine :=
  if space.validateRange arch vaddr bytes.length true then
    let (r, s) := space.writeLoop vaddr bytes.length 0 bytes m.mem
    (r, { m with mem := s })
  else (.error .blockedByExistingMapping, m)

/-- What a user address holds. -/
def userByte (space : AddressSpace) (s : Memory) (vaddr : Nat) : Option Byte :=
  (space.translate vaddr).map (getByte s)

end AddressSpace

/-! ## Bytes of words -/

section Words

variable {word k j byte : Nat}

theorem putByte_eq (word k byte : Nat) :
    putByte word k byte = word / 256 ^ (k + 1) * 256 ^ (k + 1) + byte * 256 ^ k + word % 256 ^ k := by
  have h₁ := Nat.div_add_mod word (256 ^ k)
  have h₂ := Nat.div_add_mod (word / 256 ^ k) 256
  have h₃ : word / 256 ^ (k + 1) = word / 256 ^ k / 256 := by rw [Nat.pow_succ, Nat.div_div_eq_div_mul]
  rw [putByte, h₃, Nat.pow_succ]
  generalize 256 ^ k = p at *
  generalize word / p = q at *
  generalize word % p = r at *
  subst h₁
  obtain ⟨hi, lo, rfl, hlo⟩ : ∃ hi lo, q = 256 * hi + lo ∧ lo < 256 := ⟨q / 256, q % 256, by omega, by omega⟩
  have hdiv : (256 * hi + lo) / 256 = hi := by omega
  have hmod : (256 * hi + lo) % 256 = lo := by omega
  rw [hdiv, hmod]
  have : p * (256 * hi + lo) + r = hi * (p * 256) + lo * p + r := by ring
  omega

theorem putByte_div (hb : byte < 256) :
    putByte word k byte / 256 ^ j % 256 = if j = k then byte else word / 256 ^ j % 256 := by
  rw [putByte_eq]
  have hlow : word % 256 ^ k < 256 ^ k := Nat.mod_lt _ (Nat.pow_pos (by decide))
  rcases Nat.lt_trichotomy j k with hj | rfl | hj
  · obtain ⟨d, rfl⟩ : ∃ d, k = j + 1 + d := ⟨k - (j + 1), by omega⟩
    rw [if_neg (by omega)]
    have h₁ : word / 256 ^ (j + 1 + d + 1) * 256 ^ (j + 1 + d + 1) + byte * 256 ^ (j + 1 + d) + word % 256 ^ (j + 1 + d) =
        256 ^ j * (256 * (256 ^ d * (word / 256 ^ (j + 1 + d + 1) * 256 + byte))) + word % 256 ^ (j + 1 + d) := by ring
    have h₂ : word % 256 ^ (j + 1 + d) / 256 ^ j % 256 = word / 256 ^ j % 256 := by
      rw [show 256 ^ (j + 1 + d) = 256 ^ j * (256 * 256 ^ d) by ring, Nat.mod_mul_right_div_self, Nat.mod_mul_right_mod]
    rw [h₁, Nat.mul_add_div (Nat.pow_pos (by decide)), Nat.mul_add_mod, h₂]
  · rw [if_pos rfl]
    have h₁ : word / 256 ^ (j + 1) * 256 ^ (j + 1) + byte * 256 ^ j + word % 256 ^ j =
        256 ^ j * (256 * (word / 256 ^ (j + 1)) + byte) + word % 256 ^ j := by ring
    rw [h₁, Nat.mul_add_div (Nat.pow_pos (by decide)), Nat.div_eq_of_lt hlow, Nat.add_zero, Nat.mul_add_mod,
      Nat.mod_eq_of_lt hb]
  · obtain ⟨d, rfl⟩ : ∃ d, j = k + 1 + d := ⟨j - (k + 1), by omega⟩
    rw [if_neg (by omega)]
    have hsum : byte * 256 ^ k + word % 256 ^ k < 256 ^ (k + 1) := by
      have hle : byte * 256 ^ k + 256 ^ k ≤ 256 * 256 ^ k := by
        rw [← Nat.succ_mul]
        exact Nat.mul_le_mul_right _ hb
      rw [Nat.pow_succ]
      omega
    rw [show 256 ^ (k + 1 + d) = 256 ^ (k + 1) * 256 ^ d by ring, ← Nat.div_div_eq_div_mul, Nat.add_assoc,
      Nat.mul_comm (word / 256 ^ (k + 1)), Nat.mul_add_div (Nat.pow_pos (by decide)), Nat.div_eq_of_lt hsum, Nat.add_zero,
      ← Nat.div_div_eq_div_mul]

/-- A stored byte is read back, and the others stay. -/
theorem getByte_setByte (s : Memory) (p q : Nat) (b : Byte) :
    getByte (setByte s p b.toNat) q = if q = p then b else getByte s q := by
  have hofNat : ∀ x y : Nat, x % 256 = y % 256 → BitVec.ofNat 8 x = BitVec.ofNat 8 y := fun x y h => by
    apply BitVec.eq_of_toNat_eq
    simpa using h
  have hb : BitVec.ofNat 8 b.toNat = b := by simp
  have hput : ∀ j, putByte (s.mem (p / pageSize * pageSize) (p % pageSize / 8)) (p % 8) b.toNat / 256 ^ j % 256 =
      if j = p % 8 then b.toNat else s.mem (p / pageSize * pageSize) (p % pageSize / 8) / 256 ^ j % 256 :=
    fun j => putByte_div b.isLt
  simp only [getByte, setByte, mem_setEntry]
  by_cases hq : q = p
  · subst hq
    rw [if_pos ⟨rfl, rfl⟩, if_pos rfl]
    refine (hofNat _ b.toNat ?_).trans hb
    rw [hput, if_pos rfl, Nat.mod_eq_of_lt b.isLt]
  · rw [if_neg hq]
    split
    · rename_i hword
      refine hofNat _ _ ?_
      obtain ⟨h₁, h₂⟩ := hword
      have hne : q % 8 ≠ p % 8 := by
        unfold pageSize at *
        omega
      rw [hput, if_neg hne, h₁, h₂]
    · rfl

end Words

/-! ## Copies into the pages of a space -/

section Copies

variable {arch : Arch} {bound : Nat} {other : List Extent} {rest : List Nat} {space space' : AddressSpace} {m m' : Machine}

theorem Arch.userAddressLimit_le (arch : Arch) : arch.userAddressLimit ≤ usizeMax := by cases arch <;> decide

theorem pagesAllowed_of_forall (write : Bool) : ∀ (n : Nat) {page : Nat}, page + n * pageSize ≤ usizeMax →
    (∀ k ≤ n, space.pageAllowed write (page + k * pageSize) = true) → space.pagesAllowed write n page = true := by
  intro n
  induction n with
  | zero =>
    intro page _ h
    have := h 0 (Nat.le_refl 0)
    rwa [Nat.zero_mul, Nat.add_zero] at this
  | succ n ih =>
    intro page hfit h
    rw [Nat.succ_mul, Nat.add_comm (n * pageSize), ← Nat.add_assoc] at hfit
    have hzero := h 0 (Nat.zero_le _)
    rw [Nat.zero_mul, Nat.add_zero] at hzero
    have hadd : checkedAdd page pageSize = some (page + pageSize) :=
      checkedAdd_eq (Nat.le_trans (Nat.le_add_right _ _) hfit)
    rw [AddressSpace.pagesAllowed, hzero, hadd, Bool.true_and]
    refine ih hfit fun k hk => ?_
    have := h (k + 1) (Nat.succ_le_succ hk)
    rwa [Nat.succ_mul, Nat.add_comm (k * pageSize), ← Nat.add_assoc] at this

/-- Frames of the map are aligned. -/
theorem Fenced.phys_aligned {s : Memory} (h : Fenced arch bound other rest s space) {va : Nat} {page : VmPage}
    (hp : space.pages[va]? = some page) : page.phys % pageSize = 0 := by
  obtain ⟨own, hrec, hkey, tables, -, hpool⟩ := h
  have hmem := List.mem_append_left rest (hrec.mem (maps_of_get hkey hp))
  exact (hpool.placed (List.mem_append_right tables hmem)).1

/-- No two addresses lead to the same byte. -/
theorem Fenced.translate_inj {s : Memory} (h : Fenced arch bound other rest s space) {va wa p : Nat}
    (hv : space.translate va = some p) (hw : space.translate wa = some p) : va = wa := by
  obtain ⟨page, hp, rfl⟩ := Option.map_eq_some_iff.1 hv
  obtain ⟨page', hp', he⟩ := Option.map_eq_some_iff.1 hw
  have h₁ := h.phys_aligned hp
  have h₂ := h.phys_aligned hp'
  have hphys : page'.phys = page.phys ∧ va % pageSize = wa % pageSize := by
    unfold pageSize at *
    omega
  obtain ⟨own, hrec, hkey, -⟩ := h
  have hsame := hrec.inj (maps_of_get hkey hp) (hphys.1 ▸ maps_of_get hkey hp')
  have h₃ := hphys.2
  unfold pageOf pageSize at *
  omega

/-- A later byte of a page. -/
theorem AddressSpace.translate_add {va p i : Nat} (ht : space.translate va = some p) (hin : va % pageSize + i < pageSize) :
    space.translate (va + i) = some (p + i) := by
  obtain ⟨page, hp, rfl⟩ := Option.map_eq_some_iff.1 ht
  have hpage : pageOf (va + i) = pageOf va := by
    unfold pageOf pageSize at *
    omega
  have hoff : (va + i) % pageSize = va % pageSize + i := by
    unfold pageSize at *
    omega
  rw [AddressSpace.translate, hpage, hp, hoff, Nat.add_assoc]
  rfl

/-- One byte of a page is stored. -/
theorem setByte_stays (h : Fenced arch bound other rest m.mem space) {va p : Nat} (ht : space.translate va = some p)
    (b : Byte) : Stays arch bound other rest space m space { m with mem := setByte m.mem p b.toNat } ∧
      space.userByte (setByte m.mem p b.toNat) = Function.update (space.userByte m.mem) va (some b) := by
  constructor
  · obtain ⟨page, hp, rfl⟩ := Option.map_eq_some_iff.1 ht
    have hpage : (page.phys + va % pageSize) / pageSize * pageSize = page.phys := by
      have := h.phys_aligned hp
      unfold pageSize at *
      omega
    have hmem : (setByte m.mem (page.phys + va % pageSize) b.toNat).mem = Function.update m.mem.mem page.phys
        (Function.update (m.mem.mem page.phys) ((page.phys + va % pageSize) % pageSize / 8)
          (putByte (m.mem.mem page.phys ((page.phys + va % pageSize) % pageSize / 8)) ((page.phys + va % pageSize) % 8)
            b.toNat)) := by
      unfold setByte Memory.setEntry
      rw [hpage]
    exact store_stays h hp hmem rfl
  · funext w
    unfold AddressSpace.userByte
    by_cases hw : w = va
    · subst hw
      rw [Function.update_self, ht, Option.map_some, getByte_setByte, if_pos rfl]
    · rw [Function.update_of_ne hw]
      cases htw : space.translate w with
      | none => rfl
      | some q =>
        have hq : q ≠ p := by
          rintro rfl
          exact hw (h.translate_inj htw ht)
        rw [Option.map_some, Option.map_some, getByte_setByte, if_neg hq]

/-- Bytes are copied into a page. -/
theorem copyTo_stays : ∀ (bytes : List Byte) {m : Machine} {va p : Nat}, Fenced arch bound other rest m.mem space →
    space.translate va = some p → va % pageSize + bytes.length ≤ pageSize →
    Stays arch bound other rest space m space { m with mem := copyTo m.mem p bytes } ∧
      space.userByte (copyTo m.mem p bytes) = overlay (space.userByte m.mem) va bytes
  | [], m, va, p, h, _, _ => ⟨Stays.refl h, overlay_nil.symm⟩
  | [b], m, va, p, h, ht, _ => by
    obtain ⟨h₁, hb⟩ := setByte_stays h ht b
    exact ⟨h₁, hb.trans (overlay_singleton b).symm⟩
  | b :: c :: bytes, m, va, p, h, ht, hin => by
    obtain ⟨h₁, hb⟩ := setByte_stays h ht b
    simp only [List.length_cons] at hin
    have hoff : (va + 1) % pageSize = va % pageSize + 1 := by
      unfold pageSize at *
      omega
    have hlen : (va + 1) % pageSize + (c :: bytes).length ≤ pageSize := by
      rw [hoff, List.length_cons]
      omega
    obtain ⟨h₂, hrest⟩ := copyTo_stays (c :: bytes) (m := { m with mem := setByte m.mem p b.toNat }) h₁.fenced
      (AddressSpace.translate_add ht (by omega)) hlen
    rw [copyTo, overlay_cons, ← hb]
    exact ⟨h₁.trans h₂, hrest⟩

/-- The loop of `write`. -/
theorem writeLoop_stays {vaddr : Nat} : ∀ (fuel written : Nat) (bytes : List Byte) {m : Machine} {s : Memory},
    Fenced arch bound other rest m.mem space → space.writeLoop vaddr fuel written bytes m.mem = (.ok (), s) →
    Stays arch bound other rest space m space { m with mem := s } ∧
      space.userByte s = overlay (space.userByte m.mem) (vaddr + written) bytes := by
  intro fuel
  induction fuel with
  | zero =>
    intro written bytes m s h he
    cases bytes with
    | nil =>
      cases he
      exact ⟨Stays.refl h, overlay_nil.symm⟩
    | cons b bytes => cases he
  | succ fuel ih =>
    intro written bytes m s h he
    cases bytes with
    | nil =>
      cases he
      exact ⟨Stays.refl h, overlay_nil.symm⟩
    | cons b bytes =>
      unfold AddressSpace.writeLoop at he
      split at he
      · cases he
      rename_i address haddr
      obtain ⟨-, rfl⟩ := checkedAdd_some haddr
      split at he
      · cases he
      rename_i paddr ht
      dsimp only at he
      generalize hchunk : min (pageSize - (vaddr + written) % pageSize) (b :: bytes).length = chunk at he
      have hle : chunk ≤ pageSize - (vaddr + written) % pageSize := by rw [← hchunk]; exact Nat.min_le_left ..
      have hlen : ((b :: bytes).take chunk).length = chunk := by
        rw [List.length_take, ← hchunk, Nat.min_assoc, Nat.min_self]
      have hoff := Nat.mod_lt (vaddr + written) (show 0 < pageSize by decide)
      obtain ⟨h₁, hb₁⟩ := copyTo_stays ((b :: bytes).take chunk) h ht (by rw [hlen]; omega)
      obtain ⟨h₂, hb₂⟩ := ih (written + chunk) ((b :: bytes).drop chunk)
        (m := { m with mem := copyTo m.mem paddr ((b :: bytes).take chunk) }) h₁.fenced he
      refine ⟨h₁.trans h₂, ?_⟩
      rw [hb₂, hb₁, ← Nat.add_assoc]
      conv_rhs => rw [← List.take_append_drop chunk (b :: bytes), overlay_append, hlen]

/-- **A successful `write`** puts the bytes there and changes nothing else. -/
theorem write_stays (h : Fenced arch bound other rest m.mem space) {vaddr : Nat} {bytes : List Byte}
    (he : space.write arch m vaddr bytes = (.ok (), m')) :
    Stays arch bound other rest space m space m' ∧
      space.userByte m'.mem = overlay (space.userByte m.mem) vaddr bytes := by
  unfold AddressSpace.write at he
  split at he
  swap
  · cases he
  generalize hloop : space.writeLoop vaddr bytes.length 0 bytes m.mem = x at he
  obtain ⟨r, s⟩ := x
  obtain ⟨rfl, rfl⟩ := Prod.mk.inj he
  exact writeLoop_stays bytes.length 0 bytes h hloop

/-- **A new page** is zero, and the other pages hold what they held. -/
theorem mapZeroed_bytes (hb : bound ≤ 2 ^ 36) (h : Fenced arch bound other rest m.mem space) {va p : Nat}
    {flags : MappingFlags} (he : space.mapZeroed arch m va flags = some (.ok p, space', m')) :
    va % pageSize = 0 ∧ space.pages[va]? = none ∧ space'.translate va = some p ∧
      space'.pages = space.pages.insert va ⟨p, flags⟩ ∧
      ∀ w, space'.userByte m'.mem w = if pageOf w = va then some 0 else space.userByte m.mem w := by
  obtain ⟨h₁, -⟩ := mapZeroed_stays hb h he
  obtain ⟨hold, hnew⟩ := mapZeroed_contents hb h he
  have hzero := hnew p rfl
  rcases mapZeroed_cases he with ⟨⟨e, hr⟩, -⟩ | ⟨ha, -, hcon, s, -, rfl, ⟨⟨e, hr⟩, -⟩ | ⟨p', hp', rfl⟩⟩
  · cases hr
  · cases hr
  cases hp'
  have hnone : space.pages[va]? = none := Std.TreeMap.getElem?_eq_none_of_contains_eq_false hcon
  have hget : ∀ w : Nat, (space.pages.insert va ⟨p, flags⟩)[w]? = if w = va then some ⟨p, flags⟩ else space.pages[w]? := by
    intro w
    rw [Std.TreeMap.getElem?_insert]
    by_cases hw : w = va
    · rw [if_pos hw, if_pos (Nat.compare_eq_eq.2 hw.symm)]
    · rw [if_neg hw, if_neg fun hc => hw (Nat.compare_eq_eq.1 hc).symm]
  have hpage : pageOf va = va := by
    unfold pageOf
    rw [ha, Nat.sub_zero]
  refine ⟨ha, hnone, ?_, rfl, fun w => ?_⟩
  · rw [AddressSpace.translate, hpage, hget, if_pos rfl, ha]
    rfl
  · unfold AddressSpace.userByte AddressSpace.translate
    rw [hget]
    by_cases hw : pageOf w = va
    · rw [if_pos hw, if_pos hw, Option.map_some, Option.map_some]
      have hmapped := (hget va).trans (if_pos rfl)
      have hal : p % pageSize = 0 := h₁.fenced.phys_aligned hmapped
      have hframe : (p + w % pageSize) / pageSize * pageSize = p := by
        unfold pageSize at *
        omega
      rw [getByte, hframe, hzero]
      simp
    · rw [if_neg hw, if_neg hw]
      cases hp : space.pages[pageOf w]? with
      | none => rfl
      | some page =>
        have hal := h.phys_aligned hp
        have hframe : (page.phys + w % pageSize) / pageSize * pageSize = page.phys := by
          unfold pageSize at *
          omega
        rw [Option.map_some, Option.map_some, Option.map_some, getByte, getByte, hframe, hold hp]

end Copies

end Koros.Mm
