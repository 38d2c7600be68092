import Mathlib.Data.Nat.ModEq
import Mathlib.Logic.Function.Basic

/-!
# Ring buffers

A buffer of `cap` cells with the index of its first item and the number of its items, which wrap around at the end. Its
meaning is the list of the items in order; `toList_push` and `toList_pop` say what the operations do to the list.
-/
set_option autoImplicit false

namespace Koros.Lib

structure Ring (α : Type) (cap : Nat) where
  buf : Nat → α
  len : Nat
  head : Nat
  len_le : len ≤ cap
  head_lt : head < cap

namespace Ring

variable {α : Type} {cap : Nat}

/-- Cells of which none is in use. -/
def empty (cell : α) (h : 0 < cap) : Ring α cap := ⟨fun _ => cell, 0, 0, Nat.zero_le cap, h⟩

/-- The items, the oldest one first. -/
def toList (r : Ring α cap) : List α := (List.range r.len).map fun i => r.buf ((r.head + i) % cap)

/-- An item is put behind the others, unless every cell is in use. -/
def push (r : Ring α cap) (a : α) : Ring α cap :=
  if h : r.len < cap then
    { r with
      buf := Function.update r.buf ((r.head + r.len) % cap) a
      len := r.len + 1
      len_le := h }
  else r

/-- The oldest item is taken out. -/
def pop (r : Ring α cap) : Option α × Ring α cap :=
  if 0 < r.len then
    (some (r.buf r.head),
      { r with
        head := (r.head + 1) % cap
        len := r.len - 1
        len_le := Nat.le_trans (Nat.sub_le ..) r.len_le
        head_lt := Nat.mod_lt _ (Nat.zero_lt_of_lt r.head_lt) })
  else (none, r)

@[simp] theorem length_toList (r : Ring α cap) : r.toList.length = r.len := by simp [toList]

@[simp] theorem toList_empty (cell : α) (h : 0 < cap) : (empty cell h).toList = [] := rfl

theorem toList_eq_nil_iff {r : Ring α cap} : r.toList = [] ↔ r.len = 0 := by
  rw [← List.length_eq_zero_iff, length_toList]

/-- The cell behind the last item is none of those in use. -/
theorem index_ne {r : Ring α cap} {i : Nat} (hi : i < r.len) (h : r.len < cap) :
    (r.head + i) % cap ≠ (r.head + r.len) % cap := by
  intro he
  have hmod : Nat.ModEq cap i r.len := Nat.ModEq.add_left_cancel' r.head he
  rw [Nat.ModEq, Nat.mod_eq_of_lt (Nat.lt_trans hi h), Nat.mod_eq_of_lt h] at hmod
  exact Nat.ne_of_lt hi hmod

theorem toList_push (r : Ring α cap) (a : α) : (r.push a).toList = if r.len < cap then r.toList ++ [a] else r.toList := by
  unfold push
  split
  · next h =>
    simp only [toList, List.range_succ, List.map_append, List.map_cons, List.map_nil, Function.update_self]
    congr 1
    refine List.map_congr_left fun i hi => ?_
    rw [Function.update_of_ne (index_ne (List.mem_range.1 hi) h)]
  · rfl

theorem len_push (r : Ring α cap) (a : α) : (r.push a).len = if r.len < cap then r.len + 1 else r.len := by
  unfold push
  split
  · rfl
  · rfl

theorem toList_pop (r : Ring α cap) : r.pop.1 = r.toList.head? ∧ r.pop.2.toList = r.toList.tail := by
  unfold pop
  split
  · next h =>
    obtain ⟨n, hn⟩ := Nat.exists_eq_succ_of_ne_zero (Nat.ne_of_gt h)
    have hlist : r.toList = r.buf r.head :: (List.range n).map fun i => r.buf ((r.head + (i + 1)) % cap) := by
      simp only [toList, hn, Nat.succ_eq_add_one, List.range_succ_eq_map, List.map_cons, List.map_map, Nat.add_zero,
        Nat.mod_eq_of_lt r.head_lt]
      rfl
    rw [hlist]
    refine ⟨rfl, ?_⟩
    simp only [toList, hn, Nat.succ_eq_add_one, Nat.add_sub_cancel, List.tail_cons]
    refine List.map_congr_left fun i _ => ?_
    rw [Nat.mod_add_mod, Nat.add_assoc, Nat.add_comm 1 i]
  · next h =>
    have hnil : r.toList = [] := toList_eq_nil_iff.2 (Nat.eq_zero_of_not_pos h)
    simp [hnil]

end Ring

end Koros.Lib
