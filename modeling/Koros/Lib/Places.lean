import Mathlib.Algebra.Order.BigOperators.Group.Finset
import Mathlib.Data.Fintype.BigOperators
import Mathlib.Data.List.Count

/-!
# Items kept in finitely many places

`bag p` lists what is in place `p`, and `total bag a` counts the copies of `a` over all places. A step changes `total`
by what it changes in the places it touches (`total_change`); an item whose total is one is in exactly one place
(`eq_of_mem_of_total_le_one`, `exists_mem_of_total_pos`).

`Tally f k` says that the weights `f` of an unbounded set of owners are zero but for finitely many of them and add up
to `k`; changing one owner changes the tally by the difference (`Tally.update`).
-/
set_option autoImplicit false

namespace Koros.Lib

section Places

variable {P α : Type} [Fintype P] [DecidableEq α]

/-- Copies of `a` over all places. -/
def total (bag : P → List α) (a : α) : Nat := ∑ p, (bag p).count a

variable {bag bag' : P → List α} {a : α}

theorem exists_mem_of_total_pos (h : 0 < total bag a) : ∃ p, a ∈ bag p := by
  obtain ⟨p, -, hp⟩ := Finset.exists_ne_zero_of_sum_ne_zero (Nat.pos_iff_ne_zero.1 h)
  exact ⟨p, List.count_pos_iff.1 (Nat.pos_of_ne_zero hp)⟩

theorem count_le_total (p : P) : (bag p).count a ≤ total bag a :=
  Finset.single_le_sum (f := fun p => (bag p).count a) (fun _ _ => Nat.zero_le _) (Finset.mem_univ p)

variable [DecidableEq P]

theorem eq_of_mem_of_total_le_one (h : total bag a ≤ 1) {p q : P} (hp : a ∈ bag p) (hq : a ∈ bag q) : p = q := by
  by_contra hne
  have hsum : (bag p).count a + (bag q).count a ≤ total bag a := by
    rw [← Finset.sum_pair (f := fun p => (bag p).count a) hne]
    exact Finset.sum_le_sum_of_subset (Finset.subset_univ _)
  have hp' := List.count_pos_iff.2 hp
  have hq' := List.count_pos_iff.2 hq
  omega

/-- Only the places of `S` change: the totals differ by what these places hold. -/
theorem total_change (S : Finset P) (hout : ∀ p, p ∉ S → bag' p = bag p) :
    total bag' a + ∑ p ∈ S, (bag p).count a = total bag a + ∑ p ∈ S, (bag' p).count a := by
  unfold total
  rw [← Finset.sum_add_sum_compl S, ← Finset.sum_add_sum_compl S (fun p => (bag p).count a)]
  have hrest : ∑ p ∈ Sᶜ, (bag' p).count a = ∑ p ∈ Sᶜ, (bag p).count a := by
    apply Finset.sum_congr rfl
    intro p hp
    rw [hout p (Finset.mem_compl.1 hp)]
  omega

/-- Only one place changes. -/
theorem total_change_one (p : P) (hout : ∀ r, r ≠ p → bag' r = bag r) :
    total bag' a + (bag p).count a = total bag a + (bag' p).count a := by
  have h := total_change (a := a) {p} fun r hr => hout r (by simpa using hr)
  simpa using h

end Places

/-! ## Weights with a finite sum -/

/-- The weights `f` add up to `k`. -/
def Tally {α : Type} (f : α → Nat) (k : Nat) : Prop := ∃ S : Finset α, (∀ a, a ∉ S → f a = 0) ∧ ∑ a ∈ S, f a = k

namespace Tally

variable {α : Type} {f g : α → Nat} {k : Nat}

theorem zero (h : ∀ a, f a = 0) : Tally f 0 := ⟨∅, fun a _ => h a, rfl⟩

theorem le (h : Tally f k) (a : α) : f a ≤ k := by
  obtain ⟨S, hout, rfl⟩ := h
  by_cases ha : a ∈ S
  · exact Finset.single_le_sum (fun _ _ => Nat.zero_le _) ha
  · rw [hout a ha]
    exact Nat.zero_le _

variable [DecidableEq α]

theorem pair_le (h : Tally f k) {a b : α} (hne : a ≠ b) : f a + f b ≤ k := by
  obtain ⟨S, hout, rfl⟩ := h
  rw [← Finset.sum_pair hne]
  apply Finset.sum_le_sum_of_ne_zero
  intro x _ hx
  by_contra hS
  exact hx (hout x hS)

/-- Only the weight of `a` changes. -/
theorem update (h : Tally f k) (a : α) (hout : ∀ b, b ≠ a → g b = f b) : ∃ k', Tally g k' ∧ k' + f a = k + g a := by
  obtain ⟨S, hS, rfl⟩ := h
  refine ⟨_, ⟨insert a S, fun b hb => ?_, rfl⟩, ?_⟩
  · rw [Finset.mem_insert, not_or] at hb
    rw [hout b hb.1, hS b hb.2]
  · have hf : ∑ b ∈ insert a S, f b = ∑ b ∈ S, f b :=
      Finset.sum_insert_of_eq_zero_if_notMem fun ha => hS a ha
    have hrest : ∑ b ∈ (insert a S).erase a, g b = ∑ b ∈ (insert a S).erase a, f b :=
      Finset.sum_congr rfl fun b hb => hout b (Finset.ne_of_mem_erase hb)
    have hg := Finset.add_sum_erase (insert a S) g (Finset.mem_insert_self a S)
    have hf' := Finset.add_sum_erase (insert a S) f (Finset.mem_insert_self a S)
    omega

end Tally

/-! ## Removal that moves the last element into the hole -/

/-- `Vec::swap_remove`. -/
def swapRemove {α : Type} (l : List α) (i : Nat) : List α :=
  match l.getLast? with
  | none => []
  | some x => (l.set i x).dropLast

theorem swapRemove_perm {α : Type} {l : List α} {i : Nat} {x : α} (h : l[i]? = some x) :
    (x :: swapRemove l i).Perm l := by
  rcases List.eq_nil_or_concat l with rfl | ⟨init, y, rfl⟩
  · cases h
  obtain ⟨hi, hx⟩ := List.getElem?_eq_some_iff.1 h
  rw [List.concat_eq_append, List.length_append, List.length_singleton] at hi
  simp only [swapRemove, List.concat_eq_append, List.getLast?_append, List.getLast?_singleton, Option.some_or]
  simp only [List.concat_eq_append] at hx
  rcases Nat.lt_succ_iff_lt_or_eq.1 hi with hlt | rfl
  · -- the hole is before the last element, which moves into it
    rw [List.set_append_left _ _ hlt, List.dropLast_concat]
    rw [List.getElem_append_left hlt] at hx
    have hset := List.set_perm_cons_eraseIdx hlt y
    have hget := List.getElem_cons_eraseIdx_perm hlt
    rw [hx] at hget
    calc List.Perm (x :: init.set i y) (x :: y :: init.eraseIdx i) := hset.cons x
      List.Perm _ (y :: x :: init.eraseIdx i) := .swap _ _ _
      List.Perm _ (y :: init) := hget.cons y
      List.Perm _ (init ++ [y]) := (List.perm_append_singleton y init).symm
  · simp only [List.getElem_append_right (Nat.le_refl _), Nat.sub_self, List.getElem_cons_zero] at hx
    subst hx
    simpa using (List.perm_append_singleton y init).symm

end Koros.Lib
