import Mathlib.Algebra.Ring.Nat

/-!
# Checked arithmetic

Arithmetic on unsigned machine integers that notices when a result does not fit: `none` where a checked build stops. The
rules say when a computation that goes through such a step is defined.

`checkedAdd` and `checkedMul` are `checked_add` and `checked_mul` of 64-bit integers.
-/
set_option autoImplicit false

namespace Koros

/-- `usize::MAX`, of a 64-bit target. -/
def usizeMax : Nat := 2 ^ 64 - 1

namespace Lib

variable {α : Type} {w n a b : Nat} {f : Nat → Option α}

/-- A result that must fit into `w` bits. -/
def checked (w n : Nat) : Option Nat := if n < 2 ^ w then some n else none

/-- A difference that must not be negative. -/
def checkedSub (a b : Nat) : Option Nat := if b ≤ a then some (a - b) else none

theorem checked_eq_some (h : n < 2 ^ w) : checked w n = some n := if_pos h

theorem checkedSub_eq_some (h : b ≤ a) : checkedSub a b = some (a - b) := if_pos h

theorem checked_bind_ne_none : (checked w n >>= f) ≠ none ↔ n < 2 ^ w ∧ f n ≠ none := by
  unfold checked
  split
  · rename_i h
    exact ⟨fun hf => ⟨h, hf⟩, fun hf => hf.2⟩
  · rename_i h
    exact ⟨fun hf => absurd rfl hf, fun hf => absurd hf.1 h⟩

theorem checkedSub_bind_ne_none : (checkedSub a b >>= f) ≠ none ↔ b ≤ a ∧ f (a - b) ≠ none := by
  unfold checkedSub
  split
  · rename_i h
    exact ⟨fun hf => ⟨h, hf⟩, fun hf => hf.2⟩
  · rename_i h
    exact ⟨fun hf => absurd rfl hf, fun hf => absurd hf.1 h⟩

/-- A defined step is the plain computation. -/
theorem checked_bind_eq_some {c : α} (h : (checked w n >>= f) = some c) : n < 2 ^ w ∧ f n = some c := by
  have hne := checked_bind_ne_none.1 (h ▸ Option.some_ne_none c : (checked w n >>= f) ≠ none)
  rw [checked_eq_some hne.1] at h
  exact ⟨hne.1, h⟩

theorem checkedSub_bind_eq_some {c : α} (h : (checkedSub a b >>= f) = some c) : b ≤ a ∧ f (a - b) = some c := by
  have hne := checkedSub_bind_ne_none.1 (h ▸ Option.some_ne_none c : (checkedSub a b >>= f) ≠ none)
  rw [checkedSub_eq_some hne.1] at h
  exact ⟨hne.1, h⟩

theorem checked_some {c : Nat} (h : checked w n = some c) : n < 2 ^ w ∧ c = n := by
  unfold checked at h
  split at h
  · rename_i hlt
    exact ⟨hlt, (Option.some.inj h).symm⟩
  · cases h

theorem checked_eq_none : checked w n = none ↔ ¬ n < 2 ^ w := by
  unfold checked
  split <;> simp_all

end Lib

section Usize

variable {a b c : Nat}

/-- `usize::checked_add`. -/
def checkedAdd (a b : Nat) : Option Nat := Lib.checked 64 (a + b)

/-- `usize::checked_mul`. -/
def checkedMul (a b : Nat) : Option Nat := Lib.checked 64 (a * b)

theorem lt_of_le_usizeMax (h : a ≤ usizeMax) : a < 2 ^ 64 := Nat.lt_of_le_of_lt h (by decide)

theorem checkedAdd_eq (h : a + b ≤ usizeMax) : checkedAdd a b = some (a + b) := Lib.checked_eq_some (lt_of_le_usizeMax h)

theorem checkedMul_eq (h : a * b ≤ usizeMax) : checkedMul a b = some (a * b) := Lib.checked_eq_some (lt_of_le_usizeMax h)

theorem checkedAdd_some (h : checkedAdd a b = some c) : a + b ≤ usizeMax ∧ c = a + b :=
  ⟨Nat.le_pred_of_lt (Lib.checked_some h).1, (Lib.checked_some h).2⟩

theorem checkedMul_some (h : checkedMul a b = some c) : a * b ≤ usizeMax ∧ c = a * b :=
  ⟨Nat.le_pred_of_lt (Lib.checked_some h).1, (Lib.checked_some h).2⟩

end Usize

end Koros
