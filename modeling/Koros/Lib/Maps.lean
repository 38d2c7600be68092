import Mathlib.Data.List.Perm.Subperm
import Std.Data.TreeMap.Lemmas

/-!
# Finite maps

Reading a map after an insertion or a removal (`getElem?_insertKey`, `getElem?_eraseKey`), and the search for the least
number that is in none of finitely many sets (`firstUnused`, `firstUnusedBelow`), which ends after as many rounds as there
are numbers in use (`firstUnused_spec`).
-/
set_option autoImplicit false

namespace Koros.Lib

section Maps

variable {K V : Type} [Ord K] [Std.TransOrd K] [Std.LawfulEqOrd K] [DecidableEq K]

@[simp] theorem getElem?_insertKey (m : Std.TreeMap K V) (k a : K) (v : V) :
    (m.insert k v)[a]? = if a = k then some v else m[a]? := by
  rw [Std.TreeMap.getElem?_insert]
  simp [eq_comm (a := a)]

@[simp] theorem getElem?_eraseKey (m : Std.TreeMap K V) (k a : K) :
    (m.erase k)[a]? = if a = k then none else m[a]? := by
  rw [Std.TreeMap.getElem?_erase]
  simp [eq_comm (a := a)]

omit [Std.LawfulEqOrd K] [DecidableEq K] in
theorem contains_iff (m : Std.TreeMap K V) (k : K) : m.contains k = true ↔ ∃ v, m[k]? = some v := by
  rw [Std.TreeMap.contains_eq_isSome_getElem?, Option.isSome_iff_exists]

omit [Std.LawfulEqOrd K] [DecidableEq K] in
theorem not_contains_iff (m : Std.TreeMap K V) (k : K) : m.contains k = false ↔ m[k]? = none := by
  rw [Std.TreeMap.contains_eq_isSome_getElem?, Option.isSome_eq_false_iff, Option.isNone_iff_eq_none]

end Maps

/-! ## The least number that is not in use -/

/-- Go up from `k` while the number is in use, for at most `n` rounds. -/
def firstUnused (used : Nat → Bool) : Nat → Nat → Nat
  | 0, k => k
  | n + 1, k => if used k then firstUnused used n (k + 1) else k

/-- The same search, which gives up when the next number is above `limit`. -/
def firstUnusedBelow (used : Nat → Bool) (limit : Nat) : Nat → Nat → Option Nat
  | 0, k => some k
  | n + 1, k =>
    if used k then
      if k + 1 ≤ limit then firstUnusedBelow used limit n (k + 1) else none
    else some k

section Unused

variable {used : Nat → Bool} {keys : List Nat}

/-- A row of numbers in use is no longer than the list of all that are. -/
theorem exists_unused (hkeys : ∀ k, used k = true → k ∈ keys) (k : Nat) :
    ∃ m, k ≤ m ∧ m ≤ k + keys.length ∧ used m = false := by
  by_contra hall
  have hsub : (List.range' k (keys.length + 1)) ⊆ keys := by
    intro m hm
    obtain ⟨h₁, h₂⟩ := List.mem_range'_1.1 hm
    refine hkeys m ?_
    by_contra hne
    exact hall ⟨m, h₁, by omega, by simpa using hne⟩
  have hle := (List.subperm_of_subset List.nodup_range' hsub).length_le
  rw [List.length_range'] at hle
  omega

theorem le_firstUnused (n k : Nat) : k ≤ firstUnused used n k := by
  induction n generalizing k with
  | zero => exact Nat.le_refl k
  | succ n ih =>
    unfold firstUnused
    split
    · exact Nat.le_of_succ_le (ih (k + 1))
    · exact Nat.le_refl k

/-- What the search passes is in use. -/
theorem used_of_lt_firstUnused (n k : Nat) : ∀ m, k ≤ m → m < firstUnused used n k → used m = true := by
  induction n generalizing k with
  | zero =>
    intro m h₁ h₂
    exact absurd h₂ (Nat.not_lt.2 h₁)
  | succ n ih =>
    intro m h₁ h₂
    unfold firstUnused at h₂
    split at h₂
    · next hk =>
      rcases Nat.eq_or_lt_of_le h₁ with rfl | hlt
      · exact hk
      · exact ih (k + 1) m hlt h₂
    · exact absurd h₂ (Nat.not_lt.2 h₁)

/-- A search that goes on past a number in use has found one that is not, or has used up its rounds. -/
theorem firstUnused_unused (n k : Nat) : used (firstUnused used n k) = false ∨ firstUnused used n k = k + n := by
  induction n generalizing k with
  | zero => exact .inr rfl
  | succ n ih =>
    unfold firstUnused
    split
    · rcases ih (k + 1) with h | h
      · exact .inl h
      · exact .inr (by omega)
    · next hk => exact .inl (by simpa using hk)

/-- The search finds the least number that is not in use. -/
theorem firstUnused_spec (hkeys : ∀ k, used k = true → k ∈ keys) {n : Nat} (hn : keys.length ≤ n) (k : Nat) :
    k ≤ firstUnused used n k ∧ used (firstUnused used n k) = false ∧
      ∀ m, k ≤ m → m < firstUnused used n k → used m = true := by
  refine ⟨le_firstUnused n k, ?_, used_of_lt_firstUnused n k⟩
  have hend : used (firstUnused used n k) = false ∨ firstUnused used n k = k + n := firstUnused_unused n k
  rcases hend with h | h
  · exact h
  · obtain ⟨m, h₁, h₂, h₃⟩ := exists_unused hkeys k
    rcases Nat.eq_or_lt_of_le (show m ≤ firstUnused used n k by omega) with rfl | hlt
    · exact h₃
    · rw [used_of_lt_firstUnused n k m h₁ hlt] at h₃
      cases h₃

theorem eq_firstUnused_of_below {limit n k m : Nat} (h : firstUnusedBelow used limit n k = some m) :
    m = firstUnused used n k := by
  induction n generalizing k with
  | zero => exact (Option.some.inj h).symm
  | succ n ih =>
    unfold firstUnusedBelow at h
    unfold firstUnused
    split at h
    · next hk =>
      rw [if_pos hk]
      split at h
      · exact ih h
      · cases h
    · next hk =>
      rw [if_neg hk]
      exact (Option.some.inj h).symm

end Unused

end Koros.Lib
