import Mathlib.Data.List.Basic

/-!
# Pieces that cover a stretch

A stretch of offsets is covered by pieces that follow one another, each of a length that its offset decides.

- `tiles_append`, `tiles_at`: the pieces before and behind an offset;
- `Tiles.mem`, `Tiles.exists_mem`: every piece lies in the stretch, and every offset in a piece;
- `tiles_one`, `tiles_two`: one or two pieces cover a stretch.
-/
set_option autoImplicit false

namespace Koros.Lib

/-- Pieces at the offsets `l` cover the stretch from `a` to `b`, where the one at `o` is `len o` long. -/
def Tiles (len : Nat → Nat) (b : Nat) : (a : Nat) → List Nat → Prop
  | a, [] => a = b
  | a, o :: l => o = a ∧ 0 < len a ∧ Tiles len b (a + len a) l

section Tiles

variable {len len' : Nat → Nat} {a b c o p : Nat} {l pre post : List Nat}

@[simp] theorem tiles_nil : Tiles len b a [] ↔ a = b := Iff.rfl

@[simp] theorem tiles_cons : Tiles len b a (o :: l) ↔ o = a ∧ 0 < len a ∧ Tiles len b (a + len a) l := Iff.rfl

theorem tiles_append : Tiles len c a (pre ++ post) ↔ ∃ b, Tiles len b a pre ∧ Tiles len c b post := by
  induction pre generalizing a with
  | nil => simp
  | cons o pre ih => simp [ih, and_assoc]

/-- What lies before, at and behind an offset. -/
theorem tiles_at : Tiles len c a (pre ++ o :: post) ↔
    Tiles len o a pre ∧ 0 < len o ∧ Tiles len c (o + len o) post := by
  rw [tiles_append]
  constructor
  · rintro ⟨b, hpre, rfl, hpos, hpost⟩
    exact ⟨hpre, hpos, hpost⟩
  · rintro ⟨hpre, hpos, hpost⟩
    exact ⟨o, hpre, rfl, hpos, hpost⟩

theorem Tiles.le (h : Tiles len b a l) : a ≤ b := by
  induction l generalizing a with
  | nil => exact Nat.le_of_eq h
  | cons o l ih =>
    have := ih h.2.2
    omega

theorem Tiles.mem (h : Tiles len b a l) (ho : o ∈ l) : a ≤ o ∧ 0 < len o ∧ o + len o ≤ b := by
  induction l generalizing a with
  | nil => cases ho
  | cons x l ih =>
    obtain ⟨rfl, hpos, hrest⟩ := h
    rcases List.mem_cons.1 ho with rfl | ho
    · exact ⟨Nat.le_refl _, hpos, hrest.le⟩
    · have := ih hrest ho
      omega

/-- Every offset of the stretch lies in a piece. -/
theorem Tiles.exists_mem {j : Nat} (h : Tiles len b a l) (hlo : a ≤ j) (hhi : j < b) : ∃ o ∈ l, o ≤ j ∧ j < o + len o := by
  induction l generalizing a with
  | nil =>
    have : a = b := h
    omega
  | cons x l ih =>
    obtain ⟨rfl, -, hrest⟩ := h
    by_cases hj : j < x + len x
    · exact ⟨x, List.mem_cons_self .., hlo, hj⟩
    · obtain ⟨o, ho, hin⟩ := ih hrest (by omega)
      exact ⟨o, List.mem_cons_of_mem _ ho, hin⟩

theorem Tiles.congr (h : Tiles len b a l) (hlen : ∀ o ∈ l, len' o = len o) : Tiles len' b a l := by
  induction l generalizing a with
  | nil => exact h
  | cons x l ih =>
    obtain ⟨rfl, hpos, hrest⟩ := h
    rw [tiles_cons, hlen x (List.mem_cons_self ..)]
    exact ⟨rfl, hpos, ih hrest fun o ho => hlen o (List.mem_cons_of_mem _ ho)⟩

theorem tiles_one (hpos : 0 < len a) (h : a + len a = b) : Tiles len b a [a] := ⟨rfl, hpos, h⟩

theorem tiles_two (hpos : 0 < len a) (h : a + len a = c) (hrest : Tiles len b c [c]) : Tiles len b a [a, c] :=
  ⟨rfl, hpos, by rwa [h]⟩

end Tiles

end Koros.Lib
