import Koros.Lib.Bytes

/-!
# Lists threaded through memory

`Chain mem head l`: from `head`, following the little-endian word at the start of each node, memory holds the nodes of `l`
in order, and then a null link.

- `Chain.congr`: only the link words matter;
- `Chain.push`: storing the old head in a new node.
-/
set_option autoImplicit false

namespace Koros.Lib

/-- The nodes reached from `head`. -/
def Chain (mem : Bytes) : Nat → List Nat → Prop
  | head, [] => head = 0
  | head, a :: l => head = a ∧ a ≠ 0 ∧ Chain mem (leNat mem a 8) l

namespace Chain

variable {mem mem' : Bytes} {head a : Nat} {l : List Nat}

theorem congr (h : Chain mem head l) (hmem : ∀ a ∈ l, ∀ j, a ≤ j → j < a + 8 → mem' j = mem j) : Chain mem' head l := by
  induction l generalizing head with
  | nil => exact h
  | cons a l ih =>
    obtain ⟨rfl, hne, hl⟩ := h
    have hlink : leNat mem' head 8 = leNat mem head 8 := leNat_congr (hmem head (List.mem_cons_self ..))
    refine ⟨rfl, hne, ?_⟩
    rw [hlink]
    exact ih hl fun b hb => hmem b (List.mem_cons_of_mem _ hb)

theorem head_mem (h : Chain mem head l) : head = 0 ∨ head ∈ l := by
  cases l with
  | nil => exact .inl h
  | cons a l => exact .inr (by rw [h.1]; exact List.mem_cons_self ..)

/-- A new node in front, its link word apart from the nodes that are there. -/
theorem push (h : Chain mem head l) (ha : a ≠ 0) (hlt : head < 2 ^ 64)
    (hapart : ∀ b ∈ l, b + 8 ≤ a ∨ a + 8 ≤ b) : Chain (putLe mem a 8 head) a (a :: l) := by
  refine ⟨rfl, ha, ?_⟩
  rw [leNat_putLe_of_lt hlt]
  refine h.congr fun b hb j h₁ h₂ => blit_of_outside ?_
  rcases hapart b hb with h | h
  · exact .inl (by omega)
  · exact .inr (by omega)

end Chain

end Koros.Lib
