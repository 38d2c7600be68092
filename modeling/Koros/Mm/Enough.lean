import Koros.Mm.Space

/-!
# Enough frames

A page takes one frame and at most one more for each level below the root. With as many frames left, `map` and
`map_zeroed` succeed; a new space takes one frame.
-/
set_option autoImplicit false

namespace Koros.Mm

open Koros.Frame Koros.Mmu

theorem missing_le (T : Tables) (v : Nat) (l : Nat) : missing T v l ≤ l := by
  induction l with
  | zero => exact Nat.le_refl 0
  | succ l ih =>
    unfold missing
    split
    · exact Nat.le_refl _
    · exact Nat.le_succ_of_le ih

section Page

variable {F : PteFormat} {s : Memory} {root bound va phys : Nat} {P : Pages} {tables rest : List Nat} {other : List Extent}

/-- All tables on a walk have descriptors. -/
theorem walkOk_of_pool {T : Tables} {frames : List Nat} (hb : bound ≤ maxDescriptors)
    (hpool : Pool bound s.frames frames other) (hT : ∀ l p f, T l p = some f → f ∈ frames) (v level : Nat) :
    WalkOk T v level := by
  intro l _ f hf
  have hplaced := hpool.placed (hT _ _ f hf)
  exact ⟨hplaced.1, Nat.lt_of_lt_of_le hplaced.2 hb⟩

/-- **A page is mapped** when there is a frame for each level. -/
theorem map_enough (hF : F.Lawful) (hb : bound ≤ maxDescriptors) (h : Tree F s root P tables)
    (hpool : Pool bound s.frames (tables ++ rest) other) (hu : UserPage F lowerHalf va) (hphys : FrameOk phys) (flags : MappingFlags)
    (hP : P (va / pageSize) = none) (hfree : F.top ≤ s.frames.freeFrames) :
    ∃ s', AddrSpace.map F s root va phys flags .page4K = some (.ok (), s') ∧
      s.frames.freeFrames ≤ s'.frames.freeFrames + F.top := by
  obtain ⟨T, high, hrep, hT, -⟩ := h
  have hown : ∀ l p f, T l p = some f → f ∈ tables ++ rest := fun l p f hf =>
    List.mem_append_left _ ((hT f).2 ⟨l, p, hf⟩)
  have hw := walkOk_of_pool hb hpool hown (va / pageSize) F.top
  have hroot : T F.top (region (F.top + 1) (va / pageSize)) = some root := by
    rw [hu.2.region_top]
    exact hrep.root_eq
  have hmiss := missing_le T (va / pageSize) F.top
  obtain ⟨r, s', T', P', new, he, -, hg, hlen, hres, -⟩ := mapAt_spec hF hphys flags hu.2 hP
    (Nat.le_trans hb (by decide)) F.top hrep hpool (fun hf => hown _ _ _ hf) hroot (hw _ (Nat.le_refl _) _ hroot) (Or.inl hb)
  rw [map_eq hF hrep hu.2 hw hu.1 hphys, he]
  have hcount := hg.free
  rcases hres with ⟨rfl, -, -⟩ | ⟨-, hlt, -⟩
  · exact ⟨s', rfl, by omega⟩
  · omega

theorem mapFresh_enough (hF : F.Lawful) (hb : bound ≤ maxDescriptors) (h : Tree F s root P tables)
    (hpool : Pool bound s.frames (tables ++ rest) other) (hu : UserPage F lowerHalf va) (flags : MappingFlags)
    (hP : P (va / pageSize) = none) (hfree : F.top < s.frames.freeFrames) :
    ∃ p s', mapFresh F root va flags s = some (.ok p, s') ∧ s.frames.freeFrames ≤ s'.frames.freeFrames + (F.top + 1) := by
  rcases allocFrame_pool hpool with ⟨p, a, hal, hpool₁, hone⟩ | ⟨-, hzero⟩
  swap
  · omega
  have hpool₁ : Pool bound a (tables ++ p :: rest) other := hpool₁.perm List.perm_middle.symm
  have hphys := FrameOk.of_placed (Nat.le_trans hb (by decide)) (hpool₁.placed (List.mem_append_right tables List.mem_cons_self))
  have h₁ : Tree F { s with frames := a } root P tables := h.keeps fun _ _ => ⟨rfl, rfl⟩
  obtain ⟨s', he, hcount⟩ := map_enough hF hb h₁ hpool₁ hu hphys flags hP (show F.top ≤ a.freeFrames by omega)
  refine ⟨p, s'.zeroPage p, ?_, ?_⟩
  · simp only [mapFresh, hal, he, Option.bind_eq_bind, Option.bind_some]
  · have hsame : (s'.zeroPage p).frames = s'.frames := rfl
    rw [hsame]
    dsimp only at hcount
    omega

end Page

section Space

variable {arch : Arch} {bound : Nat} {other : List Extent} {rest own : List Nat} {space : AddressSpace} {m : Machine}
  {va : Nat} {flags : MappingFlags}

/-- **`map_zeroed` succeeds** when the page is free and there are frames for it and its tables. -/
theorem mapZeroed_enough (hb : bound ≤ maxDescriptors) (h : Owns arch m.mem space own)
    (hpool : Pool bound m.mem.frames (own ++ rest) other) (hok : PageOk arch lowerHalf va flags) (hnone : space.pages[va]? = none)
    (hfree : arch.format.top < m.mem.frames.freeFrames) :
    ∃ p m', space.mapZeroed arch m va flags =
        some (.ok p, { space with pages := space.pages.insert va ⟨p, flags⟩ }, m') ∧
      m.mem.frames.freeFrames ≤ m'.mem.frames.freeFrames + (arch.format.top + 1) := by
  obtain ⟨P, tables, users, rfl, ht, -, hp⟩ := h
  have hP : P (va / pageSize) = none := by
    rw [hp.get hok.user.1, hnone]
    rfl
  obtain ⟨p, s', he, hcount⟩ := mapFresh_enough arch.lawful hb ht (by rw [← List.append_assoc]; exact hpool) hok.user
    flags hP hfree
  refine ⟨p, { m with mem := s' }, ?_, hcount⟩
  have hgood : ¬ (va % pageSize ≠ 0 ∨ va ≥ arch.userAddressLimit ∨ (!flags.u) = true) := by
    have := hok.limit
    simp only [hok.user.1, hok.u, ne_eq, not_true_eq_false, Bool.not_true, Bool.false_eq_true, or_false, false_or]
    omega
  have hcon : space.pages.contains va = false := by
    rw [Std.TreeMap.contains_eq_isSome_getElem?, hnone]
    rfl
  unfold AddressSpace.mapZeroed
  rw [if_neg hgood, hcon, withActive_eq, he]
  rfl

/-- **A space is created** when there is a frame for its root. -/
theorem empty_enough (hpool : Pool bound m.mem.frames rest other) (hfree : 0 < m.mem.frames.freeFrames) :
    ∃ root m', AddressSpace.empty m = some (.ok ⟨root, true, ∅⟩, m') ∧
      m'.mem.frames.freeFrames + 1 = m.mem.frames.freeFrames := by
  rcases allocFrame_pool hpool with ⟨root, a, hal, -, hone⟩ | ⟨-, hzero⟩
  · have hnew : ∃ m', newUser m = some (.ok root, m') ∧ m'.mem.frames = a := by
      simp only [newUser, hal, Option.bind_eq_bind, Option.bind_some]
      exact ⟨_, rfl, rfl⟩
    obtain ⟨m', hnew, hframes⟩ := hnew
    refine ⟨root, m', ?_, by rw [hframes]; exact hone⟩
    simp only [AddressSpace.empty, hnew, Option.bind_eq_bind, Option.bind_some]
  · omega

end Space

end Koros.Mm
