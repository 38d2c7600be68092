import Koros.Frame.Sound

/-!
# What an allocation finds

`alloc_frames` searches each region in two windows, from the hint on and before it. A run of free frames that the hint cuts
is in neither.

- `allocLoop_none_iff`: the search fails exactly if every aligned free run is cut by the hint of its region;
- `allocFrames_complete_iff`: so an allocation fails with a free run at hand exactly if the hints cut all of them.
-/
set_option autoImplicit false

namespace Koros.Frame

open FrameAllocator

/-- A region has an aligned run of `frames` free frames. -/
def HasRun (a : FrameAllocator) (frames : Nat) : Prop :=
  ∃ r ∈ a.regions, ∃ o, o + frames ≤ r.frames ∧ a.FreeRun r o frames

/-- A region has one that its hint does not cut. -/
def HasUncutRun (a : FrameAllocator) (frames : Nat) : Prop :=
  ∃ r ∈ a.regions, ∃ o, (r.nextHint ≤ o ∨ o + frames ≤ r.nextHint) ∧ o + frames ≤ r.frames ∧ a.FreeRun r o frames

section Loop

variable {a : FrameAllocator} {live : List Extent} {count k : Nat}

/-- The loop over the regions fails exactly if all of them have no run in either window. -/
theorem allocLoop_none_iff (h : Inv a live) (hc : count ≠ 0) (hk : checkedNextPowerOfTwo count = some (2 ^ k)) :
    ∀ {n i : Nat}, i + n ≤ a.regions.length → (a.allocLoop (2 ^ k) n i = some (none, a) ↔
      ∀ j r, i ≤ j → j < i + n → a.regions[j]? = some r → ∀ o, r.nextHint ≤ o ∨ o + 2 ^ k ≤ r.nextHint →
        o + 2 ^ k ≤ r.frames → ¬ a.FreeRun r o (2 ^ k)) := by
  intro n
  induction n with
  | zero =>
    intro i _
    exact iff_of_true rfl fun j r hij hj => by omega
  | succ n ih =>
    intro i hi
    have hr : a.regions[i]? = some (a.regions.get ⟨i, by omega⟩) := List.getElem?_eq_getElem (by omega)
    rcases searchRegion_spec h (k := k) hr with ⟨o, he, hcut, ho, hrun⟩ | ⟨he, hno⟩
    · obtain ⟨a', ht, -⟩ := take_inv h hr hc hk ho hrun
      have hstep : a.allocLoop (2 ^ k) (n + 1) i = a.take i o (2 ^ k) := by simp [allocLoop, he]
      rw [hstep, ht]
      exact iff_of_false (by simp) fun hall => hall i _ (Nat.le_refl _) (by omega) hr o hcut ho hrun
    · have hstep : a.allocLoop (2 ^ k) (n + 1) i = a.allocLoop (2 ^ k) n (i + 1) := by simp [allocLoop, he]
      rw [hstep, ih (by omega)]
      constructor
      · intro hall j r hij hj hr' o hcut ho
        rcases Nat.eq_or_lt_of_le hij with rfl | hlt
        · obtain rfl := Option.some.inj (hr.symm.trans hr')
          exact hno o ho hcut
        · exact hall j r hlt (by omega) hr' o hcut ho
      · exact fun hall j r hij hj => hall j r (by omega) (by omega)

/-- **An allocation fails** exactly if it is for no frames, for too many, or if every aligned free run is cut. -/
theorem allocFrames_none_iff (h : Inv a live) (count : Nat) : a.allocFrames count = some (none, a) ↔
    ∀ frames, checkedNextPowerOfTwo count = some frames → count = 0 ∨ ¬ HasUncutRun a frames := by
  unfold allocFrames
  by_cases hc : count = 0
  · rw [if_pos hc]
    exact iff_of_true rfl fun _ _ => Or.inl hc
  · rw [if_neg hc]
    cases hf : checkedNextPowerOfTwo count with
    | none => exact iff_of_true rfl nofun
    | some f =>
      obtain ⟨k, -, rfl, -⟩ := checkedNextPowerOfTwo_spec hf
      dsimp only
      rw [allocLoop_none_iff h hc hf (by omega)]
      constructor
      · rintro hall frames he
        cases he
        refine Or.inr ?_
        rintro ⟨r, hr, o, hcut, ho, hrun⟩
        obtain ⟨j, hj⟩ := List.mem_iff_getElem?.1 hr
        have hlt := (List.getElem?_eq_some_iff.1 hj).1
        exact hall j r (Nat.zero_le _) (by omega) hj o hcut ho hrun
      · intro hall j r _ _ hj o hcut ho hrun
        rcases hall _ rfl with h0 | hno
        · exact hc h0
        · exact hno ⟨r, List.mem_of_getElem? hj, o, hcut, ho, hrun⟩

/-- **Completeness**: in every state that the allocator reaches, an allocation fails only if there is no aligned free run
of its size, exactly unless there are such runs and it is for no frames or the hints cut all of them. -/
theorem allocFrames_complete_iff (h : Reach a live) (count : Nat) :
    (∀ a', a.allocFrames count = some (none, a') → ∀ frames, checkedNextPowerOfTwo count = some frames → ¬ HasRun a frames) ↔
      ∀ frames, checkedNextPowerOfTwo count = some frames → HasRun a frames → count ≠ 0 ∧ HasUncutRun a frames := by
  have hiff := allocFrames_none_iff h.inv count
  constructor
  · intro hcomplete frames hf hrun
    by_contra hno
    have hnone : a.allocFrames count = some (none, a) := by
      refine hiff.2 fun frames' hf' => ?_
      rw [hf] at hf'
      cases hf'
      by_cases hc : count = 0
      · exact Or.inl hc
      · exact Or.inr fun huncut => hno ⟨hc, huncut⟩
    exact hcomplete a hnone frames hf hrun
  · intro hcond a' ha frames hf hrun
    obtain ⟨hc, huncut⟩ := hcond frames hf hrun
    have hsame : a' = a := by
      rcases allocFrames_inv h.inv count with ⟨phys, a'', he, -⟩ | he
      · rw [ha] at he
        cases he
      · rw [ha] at he
        cases he
        rfl
    rw [hsame] at ha
    rcases hiff.1 ha frames hf with h0 | hno
    · exact hc h0
    · exact hno huncut

end Loop

/-! ## Runs on fixed inputs -/

/-- A call that succeeds, or fails for lack of frames. -/
inductive FrameCall where
  | alloc (count : Nat)
  | free (e : Extent)

def serveCall (s : FrameAllocator × List Extent) : FrameCall → Option (FrameAllocator × List Extent)
  | .alloc count => (s.1.allocFrames count).map fun
    | (none, a) => (a, s.2)
    | (some phys, a) => (a, ⟨phys, count⟩ :: s.2)
  | .free e => if e ∈ s.2 then (s.1.freeFramesAt e.phys e.count).map fun a => (a, s.2.erase e) else none

theorem serveCall_reach {s s' : FrameAllocator × List Extent} {c : FrameCall} (h : Reach s.1 s.2)
    (he : serveCall s c = some s') : Reach s'.1 s'.2 := by
  cases c with
  | alloc count =>
    obtain ⟨⟨p, a⟩, ha, rfl⟩ := Option.map_eq_some_iff.1 he
    cases p with
    | none => exact .full h ha
    | some phys => exact .alloc h ha
  | free e =>
    rw [serveCall] at he
    by_cases hmem : e ∈ s.2
    · rw [if_pos hmem] at he
      obtain ⟨a, ha, rfl⟩ := Option.map_eq_some_iff.1 he
      exact .free h hmem ha
    · rw [if_neg hmem] at he
      cases he

theorem run_reach (cs : List FrameCall) : ∀ {s s' : FrameAllocator × List Extent}, Reach s.1 s.2 →
    cs.foldlM serveCall s = some s' → Reach s'.1 s'.2 := by
  induction cs with
  | nil =>
    intro s s' h he
    cases he
    exact h
  | cons c cs ih =>
    intro s s' h he
    obtain ⟨s₁, h₁, he⟩ := Option.bind_eq_some_iff.1 he
    exact ih (serveCall_reach h h₁) he

/-- Eight frames from frame number 8 on. -/
def eightFrames : FrameAllocator := (FrameAllocator.new.addRegion 0x8000 0x10000).getD .new

theorem eightFrames_reach : Reach eightFrames [] :=
  .add .new (by decide) (by decide) (show FrameAllocator.new.addRegion 0x8000 0x10000 = some eightFrames from rfl)

/-- Four frames are taken one by one, the first two are freed, the upper half is taken at once, and the other two are
freed: the hint is in the middle of the lower half. -/
def cuttingCalls : List FrameCall :=
  [.alloc 1, .alloc 1, .alloc 1, .alloc 1, .free ⟨0x8000, 1⟩, .free ⟨0x9000, 1⟩, .alloc 4, .free ⟨0xa000, 1⟩,
    .free ⟨0xb000, 1⟩]

/-- The first run of four frames of the first region is free. -/
def lowerHalfFree (a : FrameAllocator) : Bool :=
  match a.regions[0]? with
  | none => false
  | some r => decide (4 ∣ r.startPpn + 0) && decide (0 + 4 ≤ r.frames) &&
    (List.range 4).all fun o => !a.used (r.bitmapBase + o)

theorem hasRun_of_lowerHalfFree {a : FrameAllocator} (h : lowerHalfFree a = true) : HasRun a 4 := by
  unfold lowerHalfFree at h
  split at h
  · cases h
  rename_i r hr
  simp only [Bool.and_eq_true, decide_eq_true_eq, List.all_eq_true, List.mem_range, Bool.not_eq_true'] at h
  exact ⟨r, List.mem_of_getElem? hr, 0, h.1.2, h.1.1, fun o _ ho => h.2 o (by omega)⟩

/-- **An allocation that fails** with a free run of its size. -/
theorem allocFrames_misses_run : ∃ a live, Reach a live ∧ a.allocFrames 4 = some (none, a) ∧
    checkedNextPowerOfTwo 4 = some 4 ∧ HasRun a 4 := by
  have hrun : ((cuttingCalls.foldlM serveCall (eightFrames, [])).bind fun s =>
      (s.1.allocFrames 4).map fun x => (x.1, lowerHalfFree s.1)) = some (none, true) := by
    decide +kernel
  obtain ⟨⟨a, live⟩, hs, hrun⟩ := Option.bind_eq_some_iff.1 hrun
  obtain ⟨⟨p, a'⟩, ha, hp⟩ := Option.map_eq_some_iff.1 hrun
  obtain ⟨rfl, hfree⟩ := Prod.mk.inj hp
  have hreach : Reach a live := run_reach cuttingCalls eightFrames_reach hs
  refine ⟨a, live, hreach, ?_, by decide, hasRun_of_lowerHalfFree hfree⟩
  rcases allocFrames_inv hreach.inv 4 with ⟨phys, a'', he, -⟩ | he
  · rw [ha] at he
    cases he
  · exact he

/-- The whole region is taken at once. -/
theorem allocFrames_complete_iff_eight : HasUncutRun eightFrames 8 ∧
    ∀ a', eightFrames.allocFrames 8 = some (none, a') → ∀ frames, checkedNextPowerOfTwo 8 = some frames →
      ¬ HasRun eightFrames frames := by
  have huncut : HasUncutRun eightFrames 8 := by
    refine ⟨⟨8, 8, 0, 0⟩, List.mem_singleton.2 rfl, 0, Or.inl (Nat.le_refl _), Nat.le_refl _, ⟨1, rfl⟩, fun o _ ho => ?_⟩
    have hall : ∀ o < 8, eightFrames.used o = false := by decide +kernel
    simpa using hall o (by omega)
  refine ⟨huncut, (allocFrames_complete_iff eightFrames_reach 8).2 fun frames hf _ => ⟨by decide, ?_⟩⟩
  obtain rfl : 8 = frames := by
    rw [show checkedNextPowerOfTwo 8 = some 8 from by decide] at hf
    exact Option.some.inj hf
  exact huncut

end Koros.Frame
