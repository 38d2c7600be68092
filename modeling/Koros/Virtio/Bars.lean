import Mathlib.Algebra.Ring.Nat
import Mathlib.Logic.Function.Basic

/-!
# Placing the memory BARs of a PCI function

`allocate_bars` of `kor-virtio/src/lib.rs` and its use in `discover_pci_ecam_blk`: the loop walks the six base address
registers of a function, skips the second half of a 64-bit one, and gives each memory BAR the next address that is a
multiple of its size. What `PciRoot::bar_info` of the crate `virtio-drivers` answers for a register is a parameter;
`set_bar_32` and `set_bar_64` write one and two registers. The sums are those of the release build, which wraps.

- `placeBar_layout`, `allocateBarsFrom_layout`: one round, and the whole loop, where no address overflows;
- `bars_in_window`: which functions are accepted then, and what they look like;
- `hugeBar_outside`: a function with an address that overflows is accepted, too.
-/
set_option autoImplicit false

namespace Koros.Virtio

inductive MemoryBarType where
  | width32
  | below1MiB
  | width64
deriving DecidableEq, Repr

inductive BarInfo where
  | memory (addressType : MemoryBarType) (size : Nat)
  | io (size : Nat)
deriving DecidableEq, Repr

def BarInfo.takesTwoEntries : BarInfo → Bool
  | .memory .width64 _ => true
  | _ => false

def PCI_BAR_COUNT : Nat := 6

/-- `u64::next_multiple_of`. -/
def nextMultipleOf (n m : Nat) : Nat := if n % m = 0 then n else (n + (m - n % m)) % 2 ^ 64

/-- The values written to the base address registers. -/
abbrev Registers := Nat → Nat

def setBar32 (regs : Registers) (bar value : Nat) : Registers := Function.update regs bar value

def setBar64 (regs : Registers) (bar value : Nat) : Registers :=
  Function.update (Function.update regs bar (value % 2 ^ 32)) (bar + 1) (value / 2 ^ 32)

/-- The body of the loop: a memory BAR of non-zero size is placed at the next multiple of its size. -/
def placeBar (bar : Nat) (next : Nat) (regs : Registers) : BarInfo → Registers × Nat
  | .memory addressType size =>
    if 0 < size then
      let aligned := nextMultipleOf next size
      let regs := match addressType with
        | .width64 => setBar64 regs bar aligned
        | _ => setBar32 regs bar (aligned % 2 ^ 32)
      (regs, (aligned + size) % 2 ^ 64)
    else (regs, next)
  | .io _ => (regs, next)

/-- The loop from register `bar` on. Every round passes a register, so `fuel` counts the ones that are left. -/
def allocateBarsFrom (info : Nat → Option BarInfo) : (fuel bar next : Nat) → Registers → Registers × Nat
  | 0, _, next, regs => (regs, next)
  | fuel + 1, bar, next, regs =>
    if bar < PCI_BAR_COUNT then
      match info bar with
      | none => allocateBarsFrom info fuel (bar + 1) next regs
      | some i =>
        let placed := placeBar bar next regs i
        allocateBarsFrom info fuel (bar + if i.takesTwoEntries then 2 else 1) placed.2 placed.1
    else (regs, next)

def allocateBars (info : Nat → Option BarInfo) (next : Nat) (regs : Registers) : Registers × Nat :=
  allocateBarsFrom info PCI_BAR_COUNT 0 next regs

/-- The part of `discover_pci_ecam_blk` around it; `none` is an exhausted window. -/
def discoverBars (info : Nat → Option BarInfo) (mmioBase mmioSize : Nat) (regs : Registers) : Option Registers :=
  let (regs, next) := allocateBars info mmioBase regs
  if next > (mmioBase + mmioSize) % 2 ^ 64 then none else some regs

/-! ## The layout -/

/-- A memory BAR that the loop meets: its register, its kind and its size. -/
structure MemoryBar where
  bar : Nat
  addressType : MemoryBarType
  size : Nat
deriving DecidableEq, Repr

/-- The memory BARs of non-zero size, in the order of the loop. -/
def memoryBarsFrom (info : Nat → Option BarInfo) : (fuel bar : Nat) → List MemoryBar
  | 0, _ => []
  | fuel + 1, bar =>
    if bar < PCI_BAR_COUNT then
      match info bar with
      | none => memoryBarsFrom info fuel (bar + 1)
      | some (.io _) => memoryBarsFrom info fuel (bar + 1)
      | some (.memory ty size) =>
        (if 0 < size then [⟨bar, ty, size⟩] else []) ++
          memoryBarsFrom info fuel (bar + if (BarInfo.memory ty size).takesTwoEntries then 2 else 1)
    else []

/-- Where the BARs end that are placed from `next` on, each at the next multiple of its size. -/
def barsEnd : (next : Nat) → List MemoryBar → Nat
  | next, [] => next
  | next, b :: bs => barsEnd ((next + b.size - 1) / b.size * b.size + b.size) bs

/-- The address a BAR decodes, which is as wide as its kind. -/
def decodes (regs : Registers) (b : MemoryBar) (address : Nat) : Prop :=
  match b.addressType with
  | .width64 => regs b.bar + 2 ^ 32 * regs (b.bar + 1) = address
  | _ => regs b.bar = address % 2 ^ 32

/-- The BARs lie one after the other from `next` to `limit`, each at a multiple of its size. -/
def Layout (address : Nat → Nat) : (next : Nat) → List MemoryBar → (limit : Nat) → Prop
  | next, [], limit => next = limit
  | next, b :: bs, limit => next ≤ address b.bar ∧ b.size ∣ address b.bar ∧
      Layout address (address b.bar + b.size) bs limit

theorem Layout.congr {address address' : Nat → Nat} : ∀ {bs : List MemoryBar} {next limit : Nat},
    Layout address next bs limit → (∀ b ∈ bs, address' b.bar = address b.bar) → Layout address' next bs limit
  | [], _, _, h, _ => h
  | b :: bs, _, _, h, heq => by
    have hb := heq b (List.mem_cons_self ..)
    refine ⟨hb ▸ h.1, hb ▸ h.2.1, ?_⟩
    rw [hb]
    exact h.2.2.congr fun b' hb' => heq b' (List.mem_cons_of_mem _ hb')

theorem Layout.le {address : Nat → Nat} : ∀ {bs : List MemoryBar} {next limit : Nat}, Layout address next bs limit →
    next ≤ limit
  | [], _, _, h => Nat.le_of_eq h
  | _ :: _, _, _, h => Nat.le_trans (Nat.le_trans h.1 (Nat.le_add_right ..)) h.2.2.le

theorem Layout.inside {address : Nat → Nat} : ∀ {bs : List MemoryBar} {next limit : Nat}, Layout address next bs limit →
    ∀ b ∈ bs, next ≤ address b.bar ∧ address b.bar + b.size ≤ limit ∧ b.size ∣ address b.bar
  | b :: bs, next, limit, h, b', hb' => by
    rcases List.mem_cons.1 hb' with rfl | hb'
    · exact ⟨h.1, h.2.2.le, h.2.1⟩
    · obtain ⟨h₁, h₂, h₃⟩ := h.2.2.inside b' hb'
      exact ⟨Nat.le_trans (Nat.le_trans h.1 (Nat.le_add_right ..)) h₁, h₂, h₃⟩

theorem Layout.pairwise {address : Nat → Nat} : ∀ {bs : List MemoryBar} {next limit : Nat}, Layout address next bs limit →
    bs.Pairwise fun b b' => address b.bar + b.size ≤ address b'.bar
  | [], _, _, _ => List.Pairwise.nil
  | _ :: _, _, _, h => List.pairwise_cons.2 ⟨fun b' hb' => (h.2.2.inside b' hb').1, h.2.2.pairwise⟩

/-! ## One round -/

theorem le_barsEnd : ∀ {bs : List MemoryBar} {next : Nat}, (∀ b ∈ bs, 0 < b.size) → next ≤ barsEnd next bs
  | [], _, _ => Nat.le_refl _
  | b :: bs, next, hpos => by
    have hb := hpos b List.mem_cons_self
    have hdiv := Nat.div_add_mod (next + b.size - 1) b.size
    have hlt := Nat.mod_lt (next + b.size - 1) hb
    rw [Nat.mul_comm] at hdiv
    have hle : next ≤ (next + b.size - 1) / b.size * b.size + b.size := by omega
    exact Nat.le_trans hle (le_barsEnd fun b' hb' => hpos b' (List.mem_cons_of_mem _ hb'))

/-- The next multiple, where it is an address. -/
theorem nextMultipleOf_eq {n m : Nat} (hm : 0 < m) (h : (n + m - 1) / m * m < 2 ^ 64) :
    nextMultipleOf n m = (n + m - 1) / m * m := by
  have hn := Nat.div_add_mod n m
  have hlt := Nat.mod_lt n hm
  by_cases hmod : n % m = 0
  · have heq : n + m - 1 = m * (n / m) + (m - 1) := by omega
    have hdiv : (n + m - 1) / m = n / m := by
      rw [heq, Nat.mul_add_div hm, Nat.div_eq_of_lt (show m - 1 < m by omega), Nat.add_zero]
    rw [nextMultipleOf, if_pos hmod, hdiv, Nat.mul_comm]
    omega
  · have heq : n + m - 1 = m * (n / m + 1) + (n % m - 1) := by
      rw [Nat.mul_add]
      omega
    have hdiv : (n + m - 1) / m = n / m + 1 := by
      rw [heq, Nat.mul_add_div hm, Nat.div_eq_of_lt (show n % m - 1 < m by omega), Nat.add_zero]
    have hnext : n + (m - n % m) = (n / m + 1) * m := by
      rw [Nat.add_mul, Nat.mul_comm]
      omega
    rw [hdiv] at h ⊢
    rw [nextMultipleOf, if_neg hmod, hnext, Nat.mod_eq_of_lt h]

theorem setBar32_of_ne {regs : Registers} {bar value k : Nat} (h : k ≠ bar) : setBar32 regs bar value k = regs k :=
  Function.update_of_ne h ..

theorem setBar64_of_ne {regs : Registers} {bar value k : Nat} (h : k ≠ bar) (h' : k ≠ bar + 1) :
    setBar64 regs bar value k = regs k := by
  rw [setBar64, Function.update_of_ne h', Function.update_of_ne h]

/-- A memory BAR that ends below 2^64 is placed at a multiple of its size, and only its own registers are written. -/
theorem placeBar_layout {bar next next' size : Nat} {ty : MemoryBarType} {regs regs' : Registers} (hsize : 0 < size)
    (hend : (next + size - 1) / size * size + size < 2 ^ 64)
    (h : placeBar bar next regs (.memory ty size) = (regs', next')) :
    ∃ address, next ≤ address ∧ size ∣ address ∧ next' = address + size ∧
      next' = (next + size - 1) / size * size + size ∧ decodes regs' ⟨bar, ty, size⟩ address ∧
      ∀ k, k < bar ∨ bar + (if (BarInfo.memory ty size).takesTwoEntries then 2 else 1) ≤ k → regs' k = regs k := by
  have hal : nextMultipleOf next size = (next + size - 1) / size * size :=
    nextMultipleOf_eq hsize (Nat.lt_of_le_of_lt (Nat.le_add_right _ _) hend)
  simp only [placeBar, if_pos hsize, hal, Nat.mod_eq_of_lt hend, Prod.mk.injEq] at h
  obtain ⟨rfl, rfl⟩ := h
  have hle : next ≤ (next + size - 1) / size * size := by
    have hdiv := Nat.div_add_mod (next + size - 1) size
    have hlt := Nat.mod_lt (next + size - 1) hsize
    rw [Nat.mul_comm] at hdiv
    omega
  refine ⟨(next + size - 1) / size * size, hle, Nat.dvd_mul_left .., rfl, rfl, ?_, fun k hk => ?_⟩
  · cases ty with
    | width64 =>
      simp only [decodes, setBar64, Function.update_self]
      rw [Function.update_of_ne (by omega), Function.update_self]
      exact Nat.mod_add_div ..
    | width32 => simp [decodes, setBar32]
    | below1MiB => simp [decodes, setBar32]
  · cases ty with
    | width64 =>
      simp only [BarInfo.takesTwoEntries, if_true] at hk
      exact setBar64_of_ne (by omega) (by omega)
    | width32 =>
      simp only [BarInfo.takesTwoEntries, Bool.false_eq_true, if_false] at hk
      exact setBar32_of_ne (by omega)
    | below1MiB =>
      simp only [BarInfo.takesTwoEntries, Bool.false_eq_true, if_false] at hk
      exact setBar32_of_ne (by omega)

/-! ## The loop -/

theorem memoryBarsFrom_mem {info : Nat → Option BarInfo} : ∀ {fuel bar : Nat} {b : MemoryBar},
    b ∈ memoryBarsFrom info fuel bar → bar ≤ b.bar ∧ 0 < b.size
  | 0, _, _, h => by cases h
  | fuel + 1, bar, b, h => by
    have later : ∀ {n : Nat}, b ∈ memoryBarsFrom info fuel (bar + n) → bar ≤ b.bar ∧ 0 < b.size := fun h =>
      ⟨Nat.le_trans (Nat.le_add_right ..) (memoryBarsFrom_mem h).1, (memoryBarsFrom_mem h).2⟩
    rw [memoryBarsFrom] at h
    by_cases hbar : bar < PCI_BAR_COUNT
    · rw [if_pos hbar] at h
      cases hi : info bar with
      | none =>
        rw [hi] at h
        exact later h
      | some i =>
        rw [hi] at h
        cases i with
        | io size => exact later h
        | memory ty size =>
          rcases List.mem_append.1 h with h | h
          · by_cases hsize : 0 < size
            · rw [if_pos hsize, List.mem_singleton] at h
              subst h
              exact ⟨Nat.le_refl _, hsize⟩
            · rw [if_neg hsize] at h
              cases h
          · exact later h
    · rw [if_neg hbar] at h
      cases h

theorem decodes_congr {regs regs' : Registers} {b : MemoryBar} {address : Nat} (h : decodes regs b address)
    (h₀ : regs' b.bar = regs b.bar) (h₁ : b.addressType = .width64 → regs' (b.bar + 1) = regs (b.bar + 1)) :
    decodes regs' b address := by
  unfold decodes at h ⊢
  split at h
  · rename_i hty
    rw [h₀, h₁ hty]
    exact h
  · rw [h₀]
    exact h

/-- **The loop**: from register `bar` on, the memory BARs are laid out from `next` to the new `next`, which is where they
end; registers before `bar` are not written. -/
theorem allocateBarsFrom_layout {info : Nat → Option BarInfo} : ∀ {fuel bar next next' : Nat} {regs regs' : Registers},
    barsEnd next (memoryBarsFrom info fuel bar) < 2 ^ 64 → allocateBarsFrom info fuel bar next regs = (regs', next') →
    (∀ k < bar, regs' k = regs k) ∧ next' = barsEnd next (memoryBarsFrom info fuel bar) ∧
      ∃ address : Nat → Nat, Layout address next (memoryBarsFrom info fuel bar) next' ∧
        ∀ b ∈ memoryBarsFrom info fuel bar, decodes regs' b (address b.bar)
  | 0, bar, next, next', regs, regs', _, h => by
    cases h
    exact ⟨fun _ _ => rfl, rfl, fun _ => 0, rfl, nofun⟩
  | fuel + 1, bar, next, next', regs, regs', hend, h => by
    rw [allocateBarsFrom] at h
    rw [memoryBarsFrom] at hend ⊢
    by_cases hbar : bar < PCI_BAR_COUNT
    · rw [if_pos hbar] at h hend ⊢
      cases hi : info bar with
      | none =>
        rw [hi] at h hend
        obtain ⟨hk, hrest⟩ := allocateBarsFrom_layout hend h
        exact ⟨fun k hlt => hk k (Nat.lt_succ_of_lt hlt), hrest⟩
      | some i =>
        rw [hi] at h hend
        cases i with
        | io size =>
          obtain ⟨hk, hrest⟩ := allocateBarsFrom_layout hend h
          exact ⟨fun k hlt => hk k (Nat.lt_succ_of_lt hlt), hrest⟩
        | memory ty size =>
          by_cases hsize : 0 < size
          · simp only [if_pos hsize, List.singleton_append, barsEnd] at hend ⊢
            have hfirst := Nat.lt_of_le_of_lt (le_barsEnd fun b hb => (memoryBarsFrom_mem hb).2) hend
            rcases hplace : placeBar bar next regs (.memory ty size) with ⟨regs₁, next₁⟩
            simp only [hplace] at h
            obtain ⟨a, hle, hdvd, hnext, hplaced, hself, hframe⟩ := placeBar_layout hsize hfirst hplace
            rw [← hplaced] at hend ⊢
            obtain ⟨hk, hnext', address, hlay, hdec⟩ := allocateBarsFrom_layout hend h
            rw [hnext] at hlay
            refine ⟨fun k hlt => ?_, hnext', Function.update address bar a, ⟨?_, ?_, ?_⟩, fun b hb => ?_⟩
            · rw [hk k (Nat.lt_add_right _ hlt), hframe k (.inl hlt)]
            · rw [Function.update_self]
              exact hle
            · rw [Function.update_self]
              exact hdvd
            · rw [Function.update_self]
              refine hlay.congr fun b hb => Function.update_of_ne (fun heq => ?_) ..
              have := (memoryBarsFrom_mem hb).1
              split at this <;> omega
            · rcases List.mem_cons.1 hb with rfl | hb
              · -- the later rounds write registers behind this one's
                rw [Function.update_self]
                refine decodes_congr hself (hk bar ?_) fun hty => hk (bar + 1) ?_
                · split <;> omega
                · subst hty
                  simp [BarInfo.takesTwoEntries]
              · have := (memoryBarsFrom_mem hb).1
                rw [Function.update_of_ne (by split at this <;> omega)]
                exact hdec b hb
          · simp only [if_neg hsize, List.nil_append] at hend ⊢
            simp only [placeBar, if_neg hsize] at h
            obtain ⟨hk, hrest⟩ := allocateBarsFrom_layout hend h
            exact ⟨fun k hlt => hk k (Nat.lt_add_right _ hlt), hrest⟩
    · rw [if_neg hbar] at h ⊢
      cases h
      exact ⟨fun _ _ => rfl, rfl, fun _ => 0, rfl, nofun⟩

/-- The memory BARs of a function. -/
def memoryBars (info : Nat → Option BarInfo) : List MemoryBar := memoryBarsFrom info PCI_BAR_COUNT 0

/-- **Placing the BARs**: in a window and with BARs that end below 2^64, a function is accepted exactly when they end in the
window. It then has all its memory BARs inside the window, disjoint, each at a multiple of its size and readable from its own
registers: a 64-bit one from two, another one from a register that holds the whole address if the window ends below 4 GiB. -/
theorem bars_in_window (info : Nat → Option BarInfo) (mmioBase mmioSize : Nat) (regs : Registers)
    (hwindow : mmioBase + mmioSize < 2 ^ 64) (hend : barsEnd mmioBase (memoryBars info) < 2 ^ 64) :
    ((discoverBars info mmioBase mmioSize regs).isSome ↔ barsEnd mmioBase (memoryBars info) ≤ mmioBase + mmioSize) ∧
    ∀ regs', discoverBars info mmioBase mmioSize regs = some regs' → ∃ address : Nat → Nat,
      (∀ b ∈ memoryBars info, mmioBase ≤ address b.bar ∧ address b.bar + b.size ≤ mmioBase + mmioSize ∧
        b.size ∣ address b.bar ∧ decodes regs' b (address b.bar) ∧
        (mmioBase + mmioSize ≤ 2 ^ 32 → b.addressType ≠ .width64 → regs' b.bar = address b.bar)) ∧
      (memoryBars info).Pairwise fun b b' => address b.bar + b.size ≤ address b'.bar := by
  rcases halloc : allocateBars info mmioBase regs with ⟨regs₁, next⟩
  obtain ⟨-, hnext, address, hlay, hdec⟩ := allocateBarsFrom_layout hend halloc
  have hnext : next = barsEnd mmioBase (memoryBars info) := hnext
  unfold discoverBars
  simp only [halloc, Nat.mod_eq_of_lt hwindow, hnext]
  by_cases hfits : barsEnd mmioBase (memoryBars info) ≤ mmioBase + mmioSize
  · rw [if_neg (Nat.not_lt.2 hfits)]
    refine ⟨iff_of_true rfl hfits, fun regs' hregs => ?_⟩
    cases hregs
    refine ⟨address, fun b hb => ?_, hlay.pairwise⟩
    obtain ⟨h₁, h₂, h₃⟩ := hlay.inside b hb
    rw [hnext] at h₂
    refine ⟨h₁, Nat.le_trans h₂ hfits, h₃, hdec b hb, fun hsmall hty => ?_⟩
    have hd := hdec b hb
    have hpos : 0 < b.size := (memoryBarsFrom_mem hb).2
    unfold decodes at hd
    split at hd
    · rename_i heq
      exact absurd heq hty
    · rw [hd]
      exact Nat.mod_eq_of_lt (by omega)
  · rw [if_pos (Nat.lt_of_not_le hfits)]
    exact ⟨iff_of_false (by simp) hfits, fun regs' hregs => by cases hregs⟩

/-- A block device with a small 32-bit BAR and a 64-bit one that takes two registers. -/
def blockDeviceBars (bar : Nat) : Option BarInfo :=
  if bar = 1 then some (.memory .width32 0x1000) else if bar = 4 then some (.memory .width64 0x4000) else none

theorem memoryBars_blockDevice : memoryBars blockDeviceBars = [⟨1, .width32, 0x1000⟩, ⟨4, .width64, 0x4000⟩] := by
  decide

/-- In a window for both BARs, and in one that is too small for the second. -/
theorem blockDevice_in_window :
    (∃ regs', discoverBars blockDeviceBars 0x10000000 0x2eff0000 (fun _ => 0) = some regs' ∧ ∃ address : Nat → Nat,
      (∀ b ∈ memoryBars blockDeviceBars, 0x10000000 ≤ address b.bar ∧
        address b.bar + b.size ≤ 0x10000000 + 0x2eff0000 ∧ b.size ∣ address b.bar ∧ decodes regs' b (address b.bar) ∧
        (0x10000000 + 0x2eff0000 ≤ 2 ^ 32 → b.addressType ≠ .width64 → regs' b.bar = address b.bar)) ∧
      (memoryBars blockDeviceBars).Pairwise fun b b' => address b.bar + b.size ≤ address b'.bar) ∧
    ¬ (discoverBars blockDeviceBars 0x10000000 0x7000 (fun _ => 0)).isSome := by
  have hend : barsEnd 0x10000000 (memoryBars blockDeviceBars) = 0x10008000 := by
    rw [memoryBars_blockDevice]
    decide +kernel
  obtain ⟨hsome, hlayout⟩ := bars_in_window blockDeviceBars 0x10000000 0x2eff0000 (fun _ => 0) (by decide)
    (by rw [hend]; decide)
  obtain ⟨hsmall, -⟩ := bars_in_window blockDeviceBars 0x10000000 0x7000 (fun _ => 0) (by decide) (by rw [hend]; decide)
  obtain ⟨regs', hregs⟩ := Option.isSome_iff_exists.1 (hsome.2 (by rw [hend]; decide))
  refine ⟨⟨regs', hregs, hlayout regs' hregs⟩, fun h => ?_⟩
  have := hsmall.1 h
  rw [hend] at this
  revert this
  decide

/-- A 64-bit BAR of 2^63 bytes ends at 2^64: the sum wraps to zero, and the function is accepted with the BAR far outside
the window. -/
theorem hugeBar_outside :
    discoverBars (fun bar => if bar = 0 then some (.memory .width64 (2 ^ 63)) else none) 0x10000000 0x2eff0000 (fun _ => 0) =
      some (setBar64 (fun _ => 0) 0 (2 ^ 63)) := by
  simp [discoverBars, allocateBars, allocateBarsFrom, PCI_BAR_COUNT, placeBar, nextMultipleOf, BarInfo.takesTwoEntries]

end Koros.Virtio
