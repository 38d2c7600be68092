import Koros.Frame.Alloc

/-!
# The pieces of the frame allocator

- `andNot` with a power-of-two mask rounds down (`andNot_two_pow`), so `alignPpn` rounds up to the next multiple
  (`alignPpn_spec`);
- the bit tests and the mark loop in terms of `testBitAt` (`bit_eq`, `firstUsed_spec`, `markBits_spec`);
- `findFreeRun` terminates, returns only aligned free runs inside its window, and returns `None` only when the window
  has none (`findFreeRun_spec`).
-/
set_option autoImplicit false

namespace Koros.Frame

open Koros.Lib

/-! ## Masks and powers of two -/

theorem andNot_two_pow {x k : Nat} (hx : x ≤ usizeMax) (hk : k ≤ 64) : andNot x (2 ^ k - 1) = x / 2 ^ k * 2 ^ k := by
  apply Nat.eq_of_testBit_eq
  intro i
  have hx64 : x < 2 ^ 64 := by unfold usizeMax at hx; omega
  simp only [andNot, usizeMax, Nat.testBit_and, Nat.testBit_xor, Nat.testBit_two_pow_sub_one, Nat.testBit_mul_two_pow,
    Nat.testBit_div_two_pow]
  by_cases hik : k ≤ i
  · have hsub : i - k + k = i := by omega
    by_cases hi : i < 64
    · simp [hik, hi, hsub, Nat.not_lt.2 hik]
    · have hf : x.testBit i = false :=
        Nat.testBit_eq_false_of_lt (Nat.lt_of_lt_of_le hx64 (Nat.pow_le_pow_right (by omega) (by omega)))
      simp [hsub, hf]
  · have hi : i < 64 := by omega
    simp [hik, hi, Nat.lt_of_not_le hik]

theorem checkedNextPowerOfTwo_spec {n f : Nat} (h : checkedNextPowerOfTwo n = some f) :
    ∃ k < 64, f = 2 ^ k ∧ n ≤ f := by
  simp only [checkedNextPowerOfTwo, Option.map_eq_some_iff] at h
  obtain ⟨k, hk, rfl⟩ := h
  have hmem := List.mem_of_find?_eq_some hk
  have hle := List.find?_some hk
  exact ⟨k, by simpa using hmem, rfl, by simpa using hle⟩

theorem checkedNextPowerOfTwo_one : checkedNextPowerOfTwo 1 = some 1 := by decide

/-- Rounding up to a multiple of a power of two. -/
theorem alignPpn_spec {ppn k : Nat} (hk : k < 64) (hov : ppn + 2 ^ k ≤ usizeMax + 1) :
    ppn ≤ alignPpn ppn (2 ^ k) ∧ alignPpn ppn (2 ^ k) < ppn + 2 ^ k ∧ 2 ^ k ∣ alignPpn ppn (2 ^ k) := by
  have hpos : 0 < 2 ^ k := Nat.two_pow_pos k
  have he : alignPpn ppn (2 ^ k) = (ppn + 2 ^ k - 1) / 2 ^ k * 2 ^ k := by
    unfold alignPpn
    exact andNot_two_pow (by omega) (by omega)
  have hdm := Nat.div_add_mod (ppn + 2 ^ k - 1) (2 ^ k)
  have hm := Nat.mod_lt (ppn + 2 ^ k - 1) hpos
  rw [Nat.mul_comm] at hdm
  rw [he]
  exact ⟨by omega, by omega, Nat.dvd_mul_left _ _⟩

/-- Nothing between a number and its rounding is a multiple. -/
theorem alignPpn_least {ppn k q : Nat} (hk : k < 64) (hov : ppn + 2 ^ k ≤ usizeMax + 1) (hq : 2 ^ k ∣ q) (hle : ppn ≤ q) :
    alignPpn ppn (2 ^ k) ≤ q := by
  obtain ⟨_, hlt, m, hm⟩ := alignPpn_spec hk hov
  obtain ⟨l, rfl⟩ := hq
  rw [hm] at hlt ⊢
  by_contra hgt
  have hml : l + 1 ≤ m := Nat.lt_of_mul_lt_mul_left (Nat.lt_of_not_le hgt)
  have := Nat.mul_le_mul_left (2 ^ k) hml
  rw [Nat.mul_add, Nat.mul_one] at this
  omega

/-! ## Bits of a region -/

namespace FrameAllocator

/-- Bit `j` of the shared bitmap. -/
def used (a : FrameAllocator) (j : Nat) : Bool := testBitAt a.allocated j

theorem div_lt_bitmapWords {j : Nat} (h : j < maxTrackedFrames) : j / 64 < bitmapWords := by
  simp only [bitmapWords, maxTrackedFrames] at *
  omega

variable {a : FrameAllocator} {i : Nat} {r : Region}

theorem bit_eq (hr : a.regions[i]? = some r) (offset : Nat) (hb : r.bitmapBase + offset < maxTrackedFrames) :
    a.bit i offset = some (a.used (r.bitmapBase + offset)) := by
  simp only [bit, hr, Option.bind_eq_bind, Option.bind_some, if_pos (div_lt_bitmapWords hb), and_mask_ne_zero]
  rfl

theorem firstUsed_spec (hr : a.regions[i]? = some r) : ∀ (n index : Nat),
    r.bitmapBase + index + n ≤ maxTrackedFrames →
    (a.firstUsed i n index = some none ∧ ∀ o, index ≤ o → o < index + n → a.used (r.bitmapBase + o) = false) ∨
    (∃ u, a.firstUsed i n index = some (some u) ∧ index ≤ u ∧ u < index + n ∧ a.used (r.bitmapBase + u) = true)
  | 0, index, _ => .inl ⟨rfl, fun o h₁ h₂ => absurd h₂ (by omega)⟩
  | n + 1, index, hb => by
    have hbit := bit_eq hr index (by omega)
    cases hu : a.used (r.bitmapBase + index) with
    | true =>
      refine .inr ⟨index, ?_, Nat.le_refl _, by omega, hu⟩
      simp [firstUsed, hbit, hu]
    | false =>
      have hstep : a.firstUsed i (n + 1) index = a.firstUsed i n (index + 1) := by simp [firstUsed, hbit, hu]
      rw [hstep]
      rcases firstUsed_spec hr n (index + 1) (by omega) with ⟨he, hc⟩ | ⟨u, he, h₁, h₂, h₃⟩
      · refine .inl ⟨he, fun o ho₁ ho₂ => ?_⟩
        rcases Nat.eq_or_lt_of_le ho₁ with rfl | hlt
        · exact hu
        · exact hc o hlt (by omega)
      · exact .inr ⟨u, he, by omega, by omega, h₃⟩

theorem allUsed_eq (hr : a.regions[i]? = some r) : ∀ (n index : Nat),
    r.bitmapBase + index + n ≤ maxTrackedFrames →
    (∀ o, index ≤ o → o < index + n → a.used (r.bitmapBase + o) = true) → a.allUsed i n index = some true
  | 0, _, _, _ => rfl
  | n + 1, index, hb, h => by
    have hbit := bit_eq hr index (by omega)
    rw [h index (Nat.le_refl _) (by omega)] at hbit
    simp only [allUsed, hbit, Option.bind_eq_bind, Option.bind_some, if_true]
    exact allUsed_eq hr n (index + 1) (by omega) fun o h₁ h₂ => h o (by omega) (by omega)

theorem markBits_spec (value : Bool) : ∀ (n bit : Nat) (words : Nat → BitVec 64), bit + n ≤ maxTrackedFrames →
    ∃ words', markBits value n bit words = some words' ∧
      ∀ j, testBitAt words' j = if bit ≤ j ∧ j < bit + n then value else testBitAt words j
  | 0, bit, words, _ => ⟨words, rfl, fun j => by rw [if_neg (by omega)]⟩
  | n + 1, bit, words, hb => by
    obtain ⟨words', he, hw⟩ := markBits_spec value n (bit + 1) (writeBitAt value words bit) (by omega)
    refine ⟨words', ?_, fun j => ?_⟩
    · simp only [markBits, if_pos (div_lt_bitmapWords (show bit < maxTrackedFrames by omega)), he]
    · rw [hw, testBitAt_writeBitAt (by omega)]
      by_cases hj : j = bit
      · subst hj
        rw [if_neg (by omega), if_pos rfl, if_pos (by omega)]
      · rw [if_neg hj]
        by_cases hin : bit + 1 ≤ j ∧ j < bit + 1 + n
        · rw [if_pos hin, if_pos (by omega)]
        · rw [if_neg hin, if_neg (by omega)]

/-! ## The search -/

/-- `offset` starts an aligned run of `frames` free frames of region `r`. -/
def FreeRun (a : FrameAllocator) (r : Region) (offset frames : Nat) : Prop :=
  frames ∣ r.startPpn + offset ∧ ∀ o, offset ≤ o → o < offset + frames → a.used (r.bitmapBase + o) = false

/-- Physical page numbers fit in `usize` with room for every rounding. -/
def Region.Fits (r : Region) : Prop := r.startPpn + r.frames ≤ 2 ^ 52

variable {stop k : Nat}

/-- The search loop from an aligned `offset`: it ends, and finds the first free run of the window. -/
theorem findLoop_spec (hr : a.regions[i]? = some r) (hfit : Region.Fits r)
    (hb : r.bitmapBase + r.frames ≤ maxTrackedFrames) (hk : 2 ^ k ≤ r.frames) (hstop : stop ≤ r.frames) :
    ∀ (fuel offset : Nat), 0 < fuel → stop < fuel + offset → 2 ^ k ∣ r.startPpn + offset → offset ≤ r.frames + 2 ^ k →
    (∃ o, a.findLoop i r stop (2 ^ k) fuel offset = some (some o) ∧ offset ≤ o ∧ o + 2 ^ k ≤ stop ∧ a.FreeRun r o (2 ^ k)) ∨
    (a.findLoop i r stop (2 ^ k) fuel offset = some none ∧
      ∀ o, offset ≤ o → o + 2 ^ k ≤ stop → ¬ a.FreeRun r o (2 ^ k))
  | 0, _, hf, _, _, _ => absurd hf (by omega)
  | fuel + 1, offset, _, hfuel, hal, hoff => by
    have hpos : 0 < 2 ^ k := Nat.two_pow_pos k
    have hfr : r.frames ≤ 2 ^ 20 := by simp only [maxTrackedFrames] at hb; omega
    have hk64 : k < 64 := by
      by_contra hge
      have : 2 ^ 64 ≤ 2 ^ k := Nat.pow_le_pow_right (by omega) (by omega)
      omega
    have hmax : offset + 2 ^ k ≤ usizeMax := by simp only [usizeMax]; omega
    by_cases hle : offset + 2 ^ k ≤ stop
    · rcases firstUsed_spec hr (2 ^ k) offset (by omega) with ⟨he, hc⟩ | ⟨u, he, h₁, h₂, h₃⟩
      · left
        refine ⟨offset, ?_, Nat.le_refl _, hle, hal, hc⟩
        simp [findLoop, hmax, hle, he]
      · unfold Region.Fits at hfit
        have hov : r.startPpn + u + 1 + 2 ^ k ≤ usizeMax + 1 := by simp only [usizeMax]; omega
        obtain ⟨ha₁, ha₂, ha₃⟩ := alignPpn_spec hk64 hov
        have hge : ¬ alignPpn (r.startPpn + u + 1) (2 ^ k) < r.startPpn := by omega
        have hstep : a.findLoop i r stop (2 ^ k) (fuel + 1) offset =
            a.findLoop i r stop (2 ^ k) fuel (alignPpn (r.startPpn + u + 1) (2 ^ k) - r.startPpn) := by
          simp [findLoop, hmax, hle, he, hge]
        rw [hstep]
        have hback : r.startPpn + (alignPpn (r.startPpn + u + 1) (2 ^ k) - r.startPpn) =
            alignPpn (r.startPpn + u + 1) (2 ^ k) := by omega
        rcases findLoop_spec hr hfit hb hk hstop fuel
            (alignPpn (r.startPpn + u + 1) (2 ^ k) - r.startPpn) (by omega) (by omega)
            (by rw [hback]; exact ha₃) (by omega) with ⟨o, ho, hge', hrest⟩ | ⟨hn, hno⟩
        · exact .inl ⟨o, ho, by omega, hrest⟩
        · refine .inr ⟨hn, fun o ho hos hrun => ?_⟩
          -- a run that starts before the next aligned offset contains the used frame `u`
          by_cases hlt : o < alignPpn (r.startPpn + u + 1) (2 ^ k) - r.startPpn
          · have hou : o ≤ u := by
              by_contra hgt
              have := alignPpn_least hk64 hov hrun.1 (by omega)
              omega
            have huo : u < o + 2 ^ k := by omega
            rw [hrun.2 u hou huo] at h₃
            exact absurd h₃ (by simp)
          · exact hno o (by omega) hos hrun
    · right
      refine ⟨by simp [findLoop, hmax, hle], fun o ho hos => by omega⟩

theorem findFreeRun_spec (hr : a.regions[i]? = some r) (hfit : Region.Fits r)
    (hb : r.bitmapBase + r.frames ≤ maxTrackedFrames) (hk : 2 ^ k ≤ r.frames) (hstop : stop ≤ r.frames) {start : Nat}
    (hstart : start ≤ r.frames) :
    (∃ o, a.findFreeRun i start stop (2 ^ k) = some (some o) ∧ start ≤ o ∧ o + 2 ^ k ≤ stop ∧ a.FreeRun r o (2 ^ k)) ∨
    (a.findFreeRun i start stop (2 ^ k) = some none ∧ ∀ o, start ≤ o → o + 2 ^ k ≤ stop → ¬ a.FreeRun r o (2 ^ k)) := by
  have hfr : r.frames ≤ 2 ^ 20 := by simp only [maxTrackedFrames] at hb; omega
  have hk64 : k < 64 := by
    by_contra hge
    have : 2 ^ 64 ≤ 2 ^ k := Nat.pow_le_pow_right (by omega) (by omega)
    omega
  unfold Region.Fits at hfit
  have hov : r.startPpn + start + 2 ^ k ≤ usizeMax + 1 := by simp only [usizeMax]; omega
  obtain ⟨ha₁, ha₂, ha₃⟩ := alignPpn_spec hk64 hov
  have hge : ¬ alignPpn (r.startPpn + start) (2 ^ k) < r.startPpn := by omega
  have hback : r.startPpn + (alignPpn (r.startPpn + start) (2 ^ k) - r.startPpn) =
      alignPpn (r.startPpn + start) (2 ^ k) := by omega
  have he : a.findFreeRun i start stop (2 ^ k) = a.findLoop i r stop (2 ^ k) (stop + 1)
      (alignPpn (r.startPpn + start) (2 ^ k) - r.startPpn) := by
    simp [findFreeRun, hr, hge]
  rw [he]
  rcases findLoop_spec hr hfit hb hk hstop (stop + 1)
      (alignPpn (r.startPpn + start) (2 ^ k) - r.startPpn) (by omega) (by omega) (by rw [hback]; exact ha₃)
      (by omega) with ⟨o, ho, hge', hrest⟩ | ⟨hn, hno⟩
  · exact .inl ⟨o, ho, by omega, hrest⟩
  · refine .inr ⟨hn, fun o ho hos hrun => hno o ?_ hos hrun⟩
    have := alignPpn_least hk64 hov hrun.1 (by omega)
    omega

end FrameAllocator

end Koros.Frame
