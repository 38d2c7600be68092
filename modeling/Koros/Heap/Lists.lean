import Koros.Heap.Slab
import Koros.Lib.Chain
import Mathlib.Data.List.Basic

/-!
# The free lists of the slab heap

What the free-list operations do to the lists that are threaded through memory, and which bytes they leave alone.

- `new_chain`: a fresh list of the blocks of a region;
- `drain_chain`: moving one list onto another;
- `grow_chain`: a slab with the blocks of a new region.
-/
set_option autoImplicit false

namespace Koros.Heap

open Koros.Lib

/-- The blocks of a region, by address. -/
def blocks (start blockSize count : Nat) : List Nat := (List.range count).map fun i => start + i * blockSize

theorem mem_blocks {start blockSize count a : Nat} :
    a ∈ blocks start blockSize count ↔ ∃ i < count, a = start + i * blockSize := by
  simp only [blocks, List.mem_map, List.mem_range]
  constructor
  · rintro ⟨i, hi, rfl⟩
    exact ⟨i, hi, rfl⟩
  · rintro ⟨i, hi, rfl⟩
    exact ⟨i, hi, rfl⟩

/-- Blocks lie in their region. -/
theorem block_inside {start blockSize count a : Nat} (h : a ∈ blocks start blockSize count) :
    start ≤ a ∧ a + blockSize ≤ start + count * blockSize := by
  obtain ⟨i, hi, rfl⟩ := mem_blocks.1 h
  have : (i + 1) * blockSize ≤ count * blockSize := Nat.mul_le_mul_right _ hi
  rw [Nat.succ_mul] at this
  omega

theorem blocks_pairwise (start blockSize count : Nat) :
    (blocks start blockSize count).Pairwise fun a b => a + blockSize ≤ b := by
  rw [blocks, List.pairwise_map]
  refine List.pairwise_lt_range.imp fun {i j} hij => ?_
  have : (i + 1) * blockSize ≤ j * blockSize := Nat.mul_le_mul_right _ hij
  rw [Nat.succ_mul] at this
  omega

theorem blocks_succ (start blockSize n : Nat) :
    blocks start blockSize (n + 1) = blocks start blockSize n ++ [start + n * blockSize] := by
  simp [blocks, List.range_succ]

section

variable {mem : Bytes} {start blockSize head : Nat}

theorem pushBlocks_frame {j : Nat} : ∀ (n : Nat) (mem : Bytes) (head : Nat),
    (∀ a ∈ blocks start blockSize n, j < a ∨ a + 8 ≤ j) →
      (FreeList.pushBlocks start blockSize n mem head).1 j = mem j
  | 0, _, _, _ => rfl
  | n + 1, mem, head, h => by
    rw [blocks_succ] at h
    rw [FreeList.pushBlocks]
    refine (pushBlocks_frame n _ _ fun a ha => h a (List.mem_append_left _ ha)).trans ?_
    exact blit_of_outside (h _ (List.mem_append_right _ (List.mem_singleton_self _)))

/-- The list that is left starts at the first block. -/
theorem pushBlocks_head : ∀ (n : Nat) (mem : Bytes) (head : Nat),
    (FreeList.pushBlocks start blockSize (n + 1) mem head).2 = start
  | 0, mem, head => by
    simp only [FreeList.pushBlocks, FreeList.push]
    omega
  | n + 1, mem, head => by
    rw [FreeList.pushBlocks]
    exact pushBlocks_head n _ _

theorem pushBlocks_chain (hbs : 8 ≤ blockSize) (hstart : start ≠ 0) : ∀ (n : Nat) (mem : Bytes) (head : Nat) (l : List Nat),
    start + n * blockSize ≤ 2 ^ 64 → head < 2 ^ 64 → Chain mem head l →
    (∀ b ∈ l, b + 8 ≤ start ∨ start + n * blockSize ≤ b) →
      Chain (FreeList.pushBlocks start blockSize n mem head).1 (FreeList.pushBlocks start blockSize n mem head).2
        (blocks start blockSize n ++ l)
  | 0, _, _, _, _, _, h, _ => h
  | n + 1, mem, head, l, hfit, hlt, h, hapart => by
    have hmul : (n + 1) * blockSize = n * blockSize + blockSize := Nat.succ_mul ..
    have hchain : Chain (putLe mem (start + n * blockSize) 8 head) (start + n * blockSize) ((start + n * blockSize) :: l) := by
      refine h.push (by omega) hlt fun b hb => ?_
      rcases hapart b hb with h | h
      · exact .inl (by omega)
      · exact .inr (by omega)
    rw [FreeList.pushBlocks, blocks_succ, List.append_assoc]
    refine pushBlocks_chain hbs hstart n _ _ _ (by omega) (by show start + n * blockSize < 2 ^ 64; omega) hchain fun b hb => ?_
    rcases List.mem_cons.1 hb with rfl | hb
    · exact .inr (Nat.le_refl _)
    · rcases hapart b hb with h | h
      · exact .inl h
      · exact .inr (by omega)

/-- A fresh list holds the blocks of its region; a region at address 0 is lost, its first block being null. -/
theorem new_chain (mem : Bytes) (hbs : 8 ≤ blockSize) (count : Nat) (hfit : start + count * blockSize ≤ 2 ^ 64) :
    Chain (FreeList.new mem start blockSize count).1 (FreeList.new mem start blockSize count).2
      (if start = 0 then [] else blocks start blockSize count) := by
  by_cases hstart : start = 0
  · rw [if_pos hstart]
    cases count with
    | zero => rfl
    | succ n => exact (pushBlocks_head n mem 0).trans hstart
  · rw [if_neg hstart]
    have := pushBlocks_chain hbs hstart count mem 0 [] hfit (by decide) rfl (fun _ h => by cases h)
    rwa [List.append_nil] at this

/-- Moving a list, node by node, in front of another one. -/
theorem drain_chain : ∀ (fuel : Nat) (mem : Bytes) (incoming head : Nat) (l m : List Nat), l.length ≤ fuel →
    Chain mem incoming l → Chain mem head m → head < 2 ^ 64 → (∀ a ∈ l, a < 2 ^ 64) →
    (l ++ m).Pairwise (fun a b => a + 8 ≤ b ∨ b + 8 ≤ a) →
      Chain (FreeList.drain fuel mem incoming head).1 (FreeList.drain fuel mem incoming head).2 (l.reverse ++ m) ∧
      ∀ j, (∀ a ∈ l, j < a ∨ a + 8 ≤ j) → (FreeList.drain fuel mem incoming head).1 j = mem j
  | 0, mem, incoming, head, l, m, hlen, _, hm, _, _, _ => by
    obtain rfl := List.eq_nil_of_length_eq_zero (Nat.le_zero.1 hlen)
    exact ⟨hm, fun _ _ => rfl⟩
  | fuel + 1, mem, incoming, head, [], m, _, hl, hm, _, _, _ => by
    have h0 : incoming = 0 := hl
    rw [FreeList.drain, FreeList.pop, if_pos h0]
    exact ⟨hm, fun _ _ => rfl⟩
  | fuel + 1, mem, incoming, head, a :: l, m, hlen, hl, hm, hlt, hbound, hapart => by
    obtain ⟨rfl, hne, hl⟩ := hl
    rw [FreeList.drain, FreeList.pop, if_neg hne]
    simp only [FreeList.push]
    rw [List.cons_append, List.pairwise_cons] at hapart
    obtain ⟨hfirst, hrest⟩ := hapart
    -- the node's link has been read, so it may be overwritten
    have hl' : Chain (putLe mem incoming 8 head) (leNat mem incoming 8) l :=
      hl.congr fun b hb j h₁ h₂ => blit_of_outside (by
        rcases hfirst b (List.mem_append_left _ hb) with h | h <;> omega)
    have hm' : Chain (putLe mem incoming 8 head) incoming (incoming :: m) :=
      hm.push hne hlt fun b hb => (hfirst b (List.mem_append_right _ hb)).symm
    have hapart' : (l ++ incoming :: m).Pairwise fun a b => a + 8 ≤ b ∨ b + 8 ≤ a := by
      refine (List.pairwise_middle fun {x y} h => h.symm).2 ?_
      exact List.pairwise_cons.2 ⟨hfirst, hrest⟩
    obtain ⟨hc, hframe⟩ := drain_chain fuel _ _ _ l (incoming :: m) (by simpa using hlen) hl' hm'
      (hbound _ (List.mem_cons_self ..)) (fun b hb => hbound b (List.mem_cons_of_mem _ hb)) hapart'
    refine ⟨by rw [List.reverse_cons, List.append_assoc]; exact hc, fun j hj => ?_⟩
    refine (hframe j fun b hb => hj b (List.mem_cons_of_mem _ hb)).trans ?_
    exact blit_of_outside (hj _ (List.mem_cons_self ..))

/-- **Growing a slab**: the new blocks come in front, and only the new region is written. -/
theorem grow_chain {s : Slab} {l : List Nat} {bytes : Nat} (hbs : 8 ≤ s.blockSize) (hfit : start + bytes ≤ 2 ^ 64)
    (hl : Chain mem s.head l) (hhead : s.head < 2 ^ 64) (hapart : ∀ b ∈ l, b + 8 ≤ start ∨ start + bytes ≤ b)
    (hnodes : l.Pairwise fun a b => a + 8 ≤ b ∨ b + 8 ≤ a) :
    ∃ head new, (s.grow mem start bytes).2 = ⟨s.blockSize, head⟩ ∧ Chain (s.grow mem start bytes).1 head (new ++ l) ∧
      new.Sublist (blocks start s.blockSize (bytes / s.blockSize)).reverse ∧
      ∀ j, j < start ∨ start + bytes ≤ j → (s.grow mem start bytes).1 j = mem j := by
  have hcount : bytes / s.blockSize * s.blockSize ≤ bytes := Nat.div_mul_le_self ..
  have hframe : ∀ j, j < start ∨ start + bytes ≤ j →
      (FreeList.new mem start s.blockSize (bytes / s.blockSize)).1 j = mem j := by
    intro j hj
    refine pushBlocks_frame _ _ _ fun a ha => ?_
    have := block_inside ha
    omega
  have hl' : Chain (FreeList.new mem start s.blockSize (bytes / s.blockSize)).1 s.head l :=
    hl.congr fun b hb j h₁ h₂ => hframe j (by rcases hapart b hb with h | h <;> omega)
  have hnew := new_chain mem hbs (bytes / s.blockSize) (show start + bytes / s.blockSize * s.blockSize ≤ 2 ^ 64 by omega)
  generalize hinc : (if start = 0 then [] else blocks start s.blockSize (bytes / s.blockSize)) = inc at hnew
  have hsub : inc.Sublist (blocks start s.blockSize (bytes / s.blockSize)) := by
    rw [← hinc]
    split
    · exact List.nil_sublist _
    · exact List.Sublist.refl _
  have hinside : ∀ a ∈ inc, start ≤ a ∧ a + s.blockSize ≤ start + bytes := fun a ha => by
    have := block_inside (hsub.subset ha)
    omega
  have hpair : (inc ++ l).Pairwise fun a b => a + 8 ≤ b ∨ b + 8 ≤ a := by
    rw [List.pairwise_append]
    refine ⟨((blocks_pairwise start s.blockSize _).sublist hsub).imp fun h => .inl (by omega), hnodes, ?_⟩
    intro a ha b hb
    have := hinside a ha
    rcases hapart b hb with h | h
    · exact .inr (by omega)
    · exact .inl (by omega)
  obtain ⟨hc, hdrain⟩ := drain_chain (bytes / s.blockSize) _ _ s.head inc l
    (by have := hsub.length_le; simpa [blocks] using this) hnew hl' hhead
    (fun a ha => by have := hinside a ha; omega) hpair
  refine ⟨_, inc.reverse, rfl, hc, List.reverse_sublist.2 hsub, fun j hj => ?_⟩
  refine (hdrain j fun a ha => ?_).trans (hframe j hj)
  have := hinside a ha
  omega

end

end Koros.Heap
