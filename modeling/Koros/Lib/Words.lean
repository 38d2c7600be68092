import Mathlib.Data.Nat.Bitwise
import Mathlib.Data.Finset.Card
import Mathlib.Data.BitVec
import Mathlib.Logic.Function.Basic
import Mathlib.Order.Interval.Finset.Nat

/-!
# Bit sets in arrays of machine words

A bit set kept in an array of `w`-bit words: bit `j` is bit `j % w` of word `j / w`. Testing, setting and clearing
are the usual mask operations; `testBitAt_writeBitAt` says that each changes one bit.

`clearCount n p` counts the indices below `n` at which `p` is false; it is how a free counter is tied to a bitmap.
-/
set_option autoImplicit false

namespace Koros.Lib

/-! ## One word -/

section Word

variable {w : Nat}

/-- The mask test of one bit is that bit. -/
theorem and_mask_ne_zero (x : BitVec w) (k : Nat) : (x &&& (1#w <<< k) != 0#w) = x.getLsbD k := by
  by_cases hk : k < w
  · cases hx : x.getLsbD k with
    | true =>
      simp only [bne_iff_ne, ne_eq]
      intro h0
      have hbit : (x &&& (1#w <<< k)).getLsbD k = true := by
        simp only [BitVec.getLsbD_and, BitVec.getLsbD_shiftLeft, BitVec.getLsbD_one, hx, hk]
        simp
        omega
      rw [h0] at hbit
      simp at hbit
    | false =>
      simp only [bne_eq_false_iff_eq]
      apply BitVec.eq_of_getLsbD_eq
      intro i hi
      simp only [BitVec.getLsbD_and, BitVec.getLsbD_shiftLeft, BitVec.getLsbD_one, BitVec.getLsbD_zero]
      by_cases hik : i = k
      · subst hik; simp [hx]
      · have : i < k ∨ i - k ≠ 0 := by omega
        rcases this with h | h <;> simp [h]
  · rw [BitVec.getLsbD_of_ge _ _ (by omega)]
    have h0 : (1#w <<< k) = 0#w := by
      apply BitVec.eq_of_getLsbD_eq
      intro i hi
      simp only [BitVec.getLsbD_shiftLeft, BitVec.getLsbD_one, BitVec.getLsbD_zero]
      have : i < k := by omega
      simp [this]
    simp [h0]

theorem getLsbD_or_mask (x : BitVec w) {k i : Nat} (hk : k < w) :
    (x ||| (1#w <<< k)).getLsbD i = if i = k then true else x.getLsbD i := by
  simp only [BitVec.getLsbD_or, BitVec.getLsbD_shiftLeft, BitVec.getLsbD_one]
  by_cases hik : i = k
  · subst hik; simp [hk]; omega
  · have : i < k ∨ i - k ≠ 0 := by omega
    rcases this with h | h <;> simp [h, hik]

theorem getLsbD_and_not_mask (x : BitVec w) {k i : Nat} (hk : k < w) :
    (x &&& ~~~(1#w <<< k)).getLsbD i = if i = k then false else x.getLsbD i := by
  simp only [BitVec.getLsbD_and, BitVec.getLsbD_not, BitVec.getLsbD_shiftLeft, BitVec.getLsbD_one]
  by_cases hik : i = k
  · subst hik; simp [hk]; omega
  · by_cases hi : i < w
    · have : i < k ∨ i - k ≠ 0 := by omega
      rcases this with h | h <;> simp [h, hik, hi]
    · simp [hik, hi, BitVec.getLsbD_of_ge _ _ (Nat.le_of_not_lt hi)]

end Word

/-! ## An array of words -/

section Words

variable {w : Nat}

/-- Bit `j` of the array. -/
def testBitAt (ws : Nat → BitVec w) (j : Nat) : Bool := (ws (j / w)).getLsbD (j % w)

/-- The array with bit `j` set to `v` by a mask operation. -/
def writeBitAt (v : Bool) (ws : Nat → BitVec w) (j : Nat) : Nat → BitVec w :=
  Function.update ws (j / w)
    (if v then ws (j / w) ||| (1#w <<< (j % w)) else ws (j / w) &&& ~~~(1#w <<< (j % w)))

theorem div_mod_inj {j k : Nat} (h₁ : j / w = k / w) (h₂ : j % w = k % w) : j = k := by
  rw [← Nat.div_add_mod j w, ← Nat.div_add_mod k w, h₁, h₂]

/-- A mask operation changes one bit. -/
theorem testBitAt_writeBitAt (hw : 0 < w) (v : Bool) (ws : Nat → BitVec w) (j k : Nat) :
    testBitAt (writeBitAt v ws j) k = if k = j then v else testBitAt ws k := by
  have hj : j % w < w := Nat.mod_lt _ hw
  unfold testBitAt writeBitAt
  by_cases hd : k / w = j / w
  · rw [hd, Function.update_self]
    have hiff : k % w = j % w ↔ k = j := ⟨fun h => div_mod_inj hd h, fun h => by rw [h]⟩
    cases v <;> simp [getLsbD_or_mask _ hj, getLsbD_and_not_mask _ hj, hiff]
  · have hkj : k ≠ j := fun h => hd (by rw [h])
    rw [Function.update_of_ne hd, if_neg hkj]

end Words

/-! ## Counting clear bits -/

section Count

/-- The number of indices below `n` at which `p` is false. -/
def clearCount (n : Nat) (p : Nat → Bool) : Nat := ((Finset.range n).filter fun j => p j = false).card

theorem clearCount_le (n : Nat) (p : Nat → Bool) : clearCount n p ≤ n := by
  have := Finset.card_filter_le (Finset.range n) fun j => p j = false
  simpa [clearCount] using this

theorem clearCount_congr {n : Nat} {p q : Nat → Bool} (h : ∀ j < n, p j = q j) : clearCount n p = clearCount n q := by
  unfold clearCount
  congr 1
  apply Finset.filter_congr
  intro j hj
  rw [h j (Finset.mem_range.1 hj)]

/-- Indices beyond the bound that are all clear add to the count. -/
theorem clearCount_add {n m : Nat} {p : Nat → Bool} (h : ∀ j, n ≤ j → j < n + m → p j = false) :
    clearCount (n + m) p = clearCount n p + m := by
  have hsplit : ((Finset.range (n + m)).filter fun j => p j = false) =
      ((Finset.range n).filter fun j => p j = false) ∪ Finset.Ico n (n + m) := by
    ext j
    simp only [Finset.mem_filter, Finset.mem_range, Finset.mem_union, Finset.mem_Ico]
    constructor
    · rintro ⟨hj, hp⟩
      by_cases hjn : j < n
      · exact .inl ⟨hjn, hp⟩
      · exact .inr ⟨by omega, hj⟩
    · rintro (⟨hj, hp⟩ | ⟨hl, hr⟩)
      · exact ⟨by omega, hp⟩
      · exact ⟨hr, h j hl hr⟩
  have hdisj : Disjoint ((Finset.range n).filter fun j => p j = false) (Finset.Ico n (n + m)) := by
    rw [Finset.disjoint_left]
    intro j hj hj'
    simp only [Finset.mem_filter, Finset.mem_range, Finset.mem_Ico] at hj hj'
    omega
  unfold clearCount
  rw [hsplit, Finset.card_union_of_disjoint hdisj, Nat.card_Ico]
  omega

/-- Setting a clear run of `m` bits takes `m` from the count. -/
theorem clearCount_set_run {n s m : Nat} {p q : Nat → Bool} (hs : s + m ≤ n)
    (hclear : ∀ j, s ≤ j → j < s + m → p j = false) (hset : ∀ j, s ≤ j → j < s + m → q j = true)
    (hsame : ∀ j, ¬(s ≤ j ∧ j < s + m) → q j = p j) : clearCount n q + m = clearCount n p := by
  have hsplit : ((Finset.range n).filter fun j => p j = false) =
      ((Finset.range n).filter fun j => q j = false) ∪ Finset.Ico s (s + m) := by
    ext j
    simp only [Finset.mem_filter, Finset.mem_range, Finset.mem_union, Finset.mem_Ico]
    by_cases hj : s ≤ j ∧ j < s + m
    · simp [hclear j hj.1 hj.2, hj, hset j hj.1 hj.2]; omega
    · simp [hj, hsame j hj]
  have hdisj : Disjoint ((Finset.range n).filter fun j => q j = false) (Finset.Ico s (s + m)) := by
    rw [Finset.disjoint_left]
    intro j hj hj'
    simp only [Finset.mem_filter, Finset.mem_range, Finset.mem_Ico] at hj hj'
    rw [hset j hj'.1 hj'.2] at hj
    exact absurd hj.2 (by simp)
  unfold clearCount
  rw [hsplit, Finset.card_union_of_disjoint hdisj, Nat.card_Ico]
  omega

theorem clearCount_pos {n j : Nat} {p : Nat → Bool} (hj : j < n) (hp : p j = false) : 0 < clearCount n p :=
  Finset.card_pos.2 ⟨j, by simp [hj, hp]⟩

theorem clearCount_lt {n j : Nat} {p : Nat → Bool} (hj : j < n) (hp : p j = true) : clearCount n p < n := by
  have hsub : ((Finset.range n).filter fun j => p j = false) ⊂ Finset.range n := by
    rw [Finset.filter_ssubset]
    exact ⟨j, Finset.mem_range.2 hj, by simp [hp]⟩
  simpa [clearCount] using Finset.card_lt_card hsub

theorem exists_clear_of_clearCount_pos {n : Nat} {p : Nat → Bool} (h : 0 < clearCount n p) :
    ∃ j < n, p j = false := by
  obtain ⟨j, hj⟩ := Finset.card_pos.1 h
  simp only [Finset.mem_filter, Finset.mem_range] at hj
  exact ⟨j, hj⟩

end Count

end Koros.Lib
