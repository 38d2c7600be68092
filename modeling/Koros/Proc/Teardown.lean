import Koros.Proc.Steps
import Mathlib.Algebra.Ring.Nat

/-!
# Process teardown

`teardown_never_releases`: no frame is returned while the root of the process is installed, and a child that has been
waited for and whose task has been reclaimed keeps all its frames (`waited_child_not_released` is such a run).
-/

set_option autoImplicit false

namespace Koros.Proc

open Koros.Sched

variable {n m : Nat}

/-! ## Release -/

/-- The task of process `pid` has been reclaimed. -/
def Reclaimed (w : World n m) (pid : Nat) : Prop :=
  ∃ id, w.taskProcesses id = some pid ∧ TaskRef.task id ∈ w.sched.reclaimed

/-- No frame of the space has been returned while its root is installed on some CPU. -/
def NotEarly (w : World n m) (space : Space) : Prop :=
  ∀ f ∈ space.frames, 0 < w.returned f → ∀ c, w.cpuRoot c ≠ space.root

/-- Once `sys_wait4` has returned the pid and the task has been reclaimed, every frame has been returned once. -/
def Released (w : World n m) (pid : Nat) (space : Space) : Prop :=
  pid ∈ w.waited ∧ Reclaimed w pid → ∀ f ∈ space.frames, w.returned f = 1

/-- **Teardown never releases a process.** In every state of every run, every process ever created still exists; no
frame of it has been returned while its root is installed; and its release is complete only as long as nothing is asked
of it, that is, until `sys_wait4` has returned its pid and its task has been reclaimed. -/
theorem teardown_never_releases (space₀ : Space) (bootRoot : Nat) (events : Fin m) (es : List (Fin n × Event m))
    (w : World n m) (hrun : (World.boot space₀ bootRoot events).run es = some w) (o : Nat) (ho : o < w.nextObj) :
    ∃ p, w.heap o = some p ∧ ∀ space, p.state.addressSpace = some space →
      NotEarly w space ∧ (Released w p.state.pid space ↔ ¬ (p.state.pid ∈ w.waited ∧ Reclaimed w p.state.pid)) := by
  have hw : Inv w := (inv_boot space₀ bootRoot events).run hrun
  obtain ⟨p, hp⟩ := hw.kept o ho
  refine ⟨p, hp, fun space _ => ⟨?_, ?_, ?_⟩⟩
  · intro f _ hpos
    rw [hw.returned f] at hpos
    cases hpos
  · intro hrel hdone
    have hone := hrel hdone space.root space.root_mem
    rw [hw.returned] at hone
    cases hone
  · intro hnot hdone
    exact absurd hdone hnot

/-! ## A child that is waited for and reclaimed -/

/-- A space of one page table and one user page. -/
def pairSpace (root : Nat) : Space := ⟨root, [root, root + 1], true, by simp⟩

/-- A CPU leaves its task and takes the next one. -/
def switches (c : Fin 2) : List (Fin 2 × Event 1) :=
  [(c, .advance), (c, .advance), (c, .advance), (c, .advance), (c, .advance)]

local instance wait_cpus : NeZero 2 := ⟨by decide⟩

local instance wait_events : NeZero 1 := ⟨by decide⟩

/-- Init forks on CPU 0; the child runs and exits on CPU 1, whose idle task reclaims it; init waits for it. -/
def waitRun : List (Fin 2 × Event 1) :=
  ([(0, .kernel .yieldNow)] : List (Fin 2 × Event 1)) ++ switches 0 ++
  ([(0, .fork (pairSpace 200) 0 0), (0, .go false), (0, .go false), (0, .go false)] : List (Fin 2 × Event 1)) ++
  ([(1, .kernel .yieldNow)] : List (Fin 2 × Event 1)) ++ switches 1 ++
  ([(1, .go false), (1, .exit 7), (1, .go false), (1, .go false), (1, .go false)] : List (Fin 2 × Event 1)) ++
  ([(1, .advance), (1, .go false)] : List (Fin 2 × Event 1)) ++ switches 1 ++
  ([(1, .kernel .reap)] : List (Fin 2 × Event 1)) ++
  ([(0, .wait4 (-1) 0), (0, .go false), (0, .go false), (0, .go false), (0, .go false), (0, .go false)] :
    List (Fin 2 × Event 1))

/-- The child's root table stays allocated. -/
theorem waited_child_not_released :
    ∃ w : World 2 1, (World.boot (pairSpace 100) 50 0).run waitRun = some w ∧ 2 ∈ w.waited ∧ Reclaimed w 2 ∧
      (w.lookup 1).isSome ∧ w.returned 200 = 0 ∧ ¬ Released w 2 (pairSpace 200) := by
  have hsome : ((World.boot (pairSpace 100) 50 0 : World 2 1).run waitRun).any
      (fun w => decide (2 ∈ w.waited) && (w.taskProcesses 2 == some 2) && decide (TaskRef.task 2 ∈ w.sched.reclaimed) &&
        (w.lookup 1).isSome && w.returned 200 == 0) = true := by decide +kernel
  obtain ⟨w, hw, htest⟩ := (Option.any_eq_true _ _).mp hsome
  simp only [Bool.and_eq_true, beq_iff_eq, decide_eq_true_eq] at htest
  obtain ⟨⟨⟨⟨hwaited, htask⟩, hrec⟩, hinit⟩, hret⟩ := htest
  have hdone : 2 ∈ w.waited ∧ Reclaimed w 2 := ⟨hwaited, 2, htask, hrec⟩
  refine ⟨w, hw, hdone.1, hdone.2, hinit, hret, fun hrel => ?_⟩
  have hone := hrel hdone 200 (by simp [pairSpace])
  rw [hret] at hone
  cases hone

theorem teardown_never_releases_waitRun :
    ∃ w : World 2 1, (World.boot (pairSpace 100) 50 0).run waitRun = some w ∧ 1 < w.nextObj ∧
      ∃ p, w.heap 1 = some p ∧ ∀ space, p.state.addressSpace = some space →
        NotEarly w space ∧ (Released w p.state.pid space ↔ ¬ (p.state.pid ∈ w.waited ∧ Reclaimed w p.state.pid)) := by
  have hsome : ((World.boot (pairSpace 100) 50 0 : World 2 1).run waitRun).any (fun w => decide (1 < w.nextObj)) = true := by
    decide +kernel
  obtain ⟨w, hw, htest⟩ := (Option.any_eq_true _ _).mp hsome
  have hlt : 1 < w.nextObj := by simpa using htest
  exact ⟨w, hw, hlt, teardown_never_releases (pairSpace 100) 50 0 waitRun w hw 1 hlt⟩

end Koros.Proc
