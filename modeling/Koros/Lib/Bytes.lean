import Mathlib.Data.BitVec
import Mathlib.Tactic.Ring

/-!
# Byte buffers

A buffer is a function from offsets to bytes; its length is known to whoever uses it. `leNat` reads a little-endian number,
`blit` copies a run of bytes, `putLe` stores a number.

- `leNat_putLe`: a number is read back modulo its width; `putLe_leNat`: storing what is there changes nothing;
- `leNat_blit_of_disjoint`, `leNat_blit_inside`: what a copy changes and what it leaves.
-/
set_option autoImplicit false

namespace Koros.Lib

abbrev Byte := BitVec 8

abbrev Bytes := Nat → Byte

/-- The little-endian number in the `n` bytes from `i` on. -/
def leNat (b : Bytes) : (i n : Nat) → Nat
  | _, 0 => 0
  | i, n + 1 => (b i).toNat + 256 * leNat b (i + 1) n

/-- `b[i..i + n].copy_from_slice(src)`. -/
def blit (b : Bytes) (i n : Nat) (src : Bytes) : Bytes := fun j => if i ≤ j ∧ j < i + n then src (j - i) else b j

/-- The bytes of a number, low byte first. -/
def toLe (v : Nat) : Bytes := fun k => BitVec.ofNat 8 (v / 256 ^ k)

/-- Store the `n` low bytes of `v` at `i`. -/
def putLe (b : Bytes) (i n v : Nat) : Bytes := blit b i n (toLe v)

/-- The buffer from `i` on. -/
def dropBytes (b : Bytes) (i : Nat) : Bytes := fun k => b (i + k)

section

variable {b b' src : Bytes} {i n p m : Nat}

theorem leNat_congr (h : ∀ j, i ≤ j → j < i + n → b j = b' j) : leNat b i n = leNat b' i n := by
  induction n generalizing i with
  | zero => rfl
  | succ n ih =>
    rw [leNat, leNat, h i (Nat.le_refl _) (by omega), ih fun j h₁ h₂ => h j (by omega) (by omega)]

theorem leNat_lt : leNat b i n < 256 ^ n := by
  induction n generalizing i with
  | zero => exact Nat.one_pos
  | succ n ih =>
    have h₁ : (b i).toNat < 256 := (b i).isLt
    have h₂ : leNat b (i + 1) n < 256 ^ n := ih
    rw [leNat, Nat.pow_succ]
    omega

theorem blit_of_inside {j : Nat} (h₁ : i ≤ j) (h₂ : j < i + n) : blit b i n src j = src (j - i) := if_pos ⟨h₁, h₂⟩

theorem blit_of_outside {j : Nat} (h : j < i ∨ i + n ≤ j) : blit b i n src j = b j := if_neg (by omega)

theorem leNat_blit_of_disjoint (h : i + n ≤ p ∨ p + m ≤ i) : leNat (blit b p m src) i n = leNat b i n :=
  leNat_congr fun _ _ _ => blit_of_outside (by omega)

/-- A number inside the copied run is read from the source. -/
theorem leNat_blit_inside (h₁ : p ≤ i) (h₂ : i + n ≤ p + m) : leNat (blit b p m src) i n = leNat src (i - p) n := by
  induction n generalizing i with
  | zero => rfl
  | succ n ih =>
    rw [leNat, leNat, blit_of_inside h₁ (by omega), ih (i := i + 1) (by omega) (by omega),
      show i + 1 - p = i - p + 1 by omega]

theorem leNat_toLe (v : Nat) : leNat (toLe v) i n = v / 256 ^ i % 256 ^ n := by
  induction n generalizing i with
  | zero => simp [leNat, Nat.mod_one]
  | succ n ih =>
    have hbyte : (toLe v i).toNat = v / 256 ^ i % 256 := by simp [toLe]
    rw [leNat, ih, hbyte, Nat.pow_succ 256 i, ← Nat.div_div_eq_div_mul, Nat.pow_succ, Nat.mul_comm (256 ^ n) 256,
      Nat.mod_mul]

theorem leNat_putLe (v : Nat) : leNat (putLe b i n v) i n = v % 256 ^ n := by
  rw [putLe, leNat_blit_inside (Nat.le_refl _) (Nat.le_refl _), Nat.sub_self, leNat_toLe, Nat.pow_zero, Nat.div_one]

theorem leNat_putLe_of_lt {v : Nat} (hv : v < 256 ^ n) : leNat (putLe b i n v) i n = v := by
  rw [leNat_putLe, Nat.mod_eq_of_lt hv]

theorem leNat_putLe_of_disjoint (v : Nat) (h : i + n ≤ p ∨ p + m ≤ i) : leNat (putLe b p m v) i n = leNat b i n :=
  leNat_blit_of_disjoint h

theorem leNat_dropBytes : leNat (dropBytes b p) i n = leNat b (p + i) n := by
  induction n generalizing i with
  | zero => rfl
  | succ n ih => rw [leNat, leNat, ih, dropBytes, Nat.add_assoc]

/-- The byte `k` of the number read at `i` is the byte at `i + k`. -/
theorem toLe_leNat {k : Nat} (hk : k < n) : toLe (leNat b i n) k = b (i + k) := by
  induction n generalizing i k with
  | zero => omega
  | succ n ih =>
    apply BitVec.eq_of_toNat_eq
    have hbyte : (b i).toNat < 256 := (b i).isLt
    cases k with
    | zero =>
      simp only [toLe, leNat, BitVec.toNat_ofNat, Nat.pow_zero, Nat.div_one, Nat.add_zero]
      omega
    | succ k =>
      have hk' := congrArg BitVec.toNat (ih (i := i + 1) (k := k) (by omega))
      simp only [toLe, BitVec.toNat_ofNat] at hk' ⊢
      rw [leNat, Nat.pow_succ', ← Nat.div_div_eq_div_mul, show ((b i).toNat + 256 * leNat b (i + 1) n) / 256 =
        leNat b (i + 1) n by omega, hk', show i + 1 + k = i + (k + 1) by omega]

/-- Storing the number that is already there changes nothing. -/
theorem putLe_leNat : putLe b i n (leNat b i n) = b := by
  funext j
  by_cases hj : i ≤ j ∧ j < i + n
  · rw [putLe, blit_of_inside hj.1 hj.2, toLe_leNat (by omega), show i + (j - i) = j by omega]
  · rw [putLe, blit_of_outside (by omega)]

theorem leNat_zero : leNat (fun _ => 0) i n = 0 := by
  induction n generalizing i with
  | zero => rfl
  | succ n ih => rw [leNat, ih]; rfl

end

end Koros.Lib
