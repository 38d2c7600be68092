import Koros.Lib.Runs
import Koros.Sched.Conserve

/-!
# Address spaces across switches

`schedule` of `kor-sched/src/lib.rs` with the page-table roots: a task has a root, `spawn_configured` gives it to a new task,
and `schedule` activates the one of the incoming task just before `context_switch`. The code of a task activates other roots,
too: `AddressSpace::with_active` for a while, and `activate` before `replace_address_space` of `korix/src/sched/mod.rs` makes
such a root the task's own. All of these are steps of their own, so that a CPU can be preempted and others can run between
them. The scheduler itself is the one of `Koros.Sched.Model`, on any number of CPUs.

- `advance_keeps`, `call_keeps`: only `context_switch` moves a CPU to another task;
- `step_own`: every step keeps the invariant `Own`, and **`own_address_space`** for every run;
- `interrupted_replace`: a task that is preempted between `activate` and `replace_address_space` finds its old root active.
-/
set_option autoImplicit false

namespace Koros.Sched

variable {n m : Nat} {C : Type}

/-! ## The stacks of the CPUs -/

section Stacks

variable {s s₀ s' : Sys n m C} {c : Fin n}

/-- A step of CPU `c` that stays on its stack. -/
structure Keeps (c : Fin n) (s s' : Sys n m C) : Prop where
  others : ∀ d, d ≠ c → s'.cpus d = s.cpus d
  stack : (s'.cpus c).stack = (s.cpus c).stack

theorem keeps_of_cpus (h : s'.cpus = s.cpus) : Keeps c s s' := ⟨fun _ _ => by rw [h], by rw [h]⟩

theorem setCpu_keeps {f : PerCpu n m C → PerCpu n m C} (h : s₀.cpus = s.cpus)
    (hf : (f (s.cpus c)).stack = (s.cpus c).stack) : Keeps c s (s₀.setCpu c f) where
  others := fun d hd => by rw [Sys.cpus_setCpu, Function.update_of_ne hd, h]
  stack := by rw [Sys.cpus_setCpu, Function.update_self, h, hf]

theorem setPhase_keeps {ph : Phase n m} (h : s₀.cpus = s.cpus) : Keeps c s (s₀.setPhase c ph) := setCpu_keeps h rfl

theorem Keeps.trans (h : Keeps c s s₀) (h' : Keeps c s₀ s') : Keeps c s s' where
  others := fun d hd => (h'.others d hd).trans (h.others d hd)
  stack := h'.stack.trans h.stack

/-- `init` also says that the scheduler is ready. -/
theorem initThisCpu_keeps (h : s₀.cpus = (s.initThisCpu c).cpus) : Keeps c s s₀ :=
  Keeps.trans (setCpu_keeps rfl (by rfl)) (keeps_of_cpus h)

/-- A call of the scheduler stays on the caller's stack until it switches. -/
theorem call_keeps {k : Call m C} (hs : s.call c k = some s') : (s.cpus c).phase = .run ∧ Keeps c s s' := by
  obtain ⟨hph, hcalled, -⟩ := call_cases hs
  refine ⟨hph, ?_⟩
  cases hcalled with
  | init | initThisCpu => exact initThisCpu_keeps rfl
  | preempt => exact Keeps.trans (setCpu_keeps rfl (by rfl)) (setPhase_keeps rfl)
  | taskNew | spawn | take | keepsOn | goesOn | notReady | reap => exact keeps_of_cpus rfl
  | yieldNow | sleep | exit | block | semPost | waits | wakeOne | wakeAll | timerTick => exact setPhase_keeps rfl

/-- **Only `context_switch` changes stacks**, and only its own CPU's. -/
theorem advance_keeps (hs : s.advance c = some s') (hph : (s.cpus c).phase ≠ .switching) : Keeps c s s' := by
  cases advance_cases hs with
  | switches hsw => exact absurd hsw hph
  | installs | takesPrev | ticked => exact setCpu_keeps rfl (by rfl)
  | picks | idles | staysOn | noPrev | restsIdle | readies | sleeps | dies | parks | woke | wakes | due | notDue
  | tickWakes => exact setPhase_keeps rfl

/-- `context_switch` goes to the stack of the task that is current. -/
theorem advance_switches (hs : s.advance c = some s') (hph : (s.cpus c).phase = .switching) :
    (∀ d, d ≠ c → s'.cpus d = s.cpus d) ∧ (s.cpus c).current = some (s'.cpus c).stack := by
  cases advance_cases hs with
  | switches _ _ hcur =>
    refine ⟨fun d hd => ?_, ?_⟩
    · simp [Sys.setCpu, Function.update_of_ne hd]
    · simp [Sys.setCpu, hcur]
  | picks h | idles h | staysOn h | installs h | takesPrev h | noPrev h | restsIdle h | readies h | sleeps h | dies h
  | parks h | woke h | wakes h | due h | notDue h | ticked h | tickWakes h => cases hph.symm.trans h

end Stacks

/-! ## Roots -/

/-- What a task has of address spaces. -/
structure TaskSpace where
  /-- `address_space_root`. -/
  root : Nat
  /-- The root that the task's code has activated over its own, and the one it found. -/
  borrowed : Option (Nat × Nat)
deriving DecidableEq, Repr

/-- The scheduler with the tasks' roots and the root that each CPU translates through. -/
structure Spaces (n m : Nat) (C : Type) where
  sys : Sys n m C
  task : TaskRef n → TaskSpace
  active : Fin n → Nat
  /-- `schedule` has activated the root of the incoming task, and `context_switch` comes next. -/
  activated : Fin n → Bool

/-- What a CPU can do. -/
inductive SpaceEvent (m : Nat) (C : Type) where
  /-- A step of the scheduler; `root` is the one that `spawn_configured` is given, if the step is its `Task::new`. -/
  | sched (event : Event m C) (root : Nat)
  /-- `sched_activate_address_space`, in `schedule`. -/
  | activateNext
  /-- `activate` by the running task, or the beginning of `with_active`. -/
  | activate (root : Nat)
  /-- The end of `with_active`. -/
  | restore
  /-- `replace_address_space` by the running task. -/
  | replaceAddressSpace

/-- The task whose code the CPU executes, outside the scheduler. -/
def Sys.runs (s : Sys n m C) (c : Fin n) : Option Nat :=
  match (s.cpus c).phase, (s.cpus c).stack with
  | .run, .task id => some id
  | _, _ => none

/-- The step is `context_switch`. -/
def Sys.switches (s : Sys n m C) (c : Fin n) : Event m C → Bool
  | .advance => decide ((s.cpus c).phase = .switching)
  | _ => false

namespace Spaces

/-- The tasks after a step of the scheduler: a new task, or the idle task that `init_this_cpu` makes. -/
def tasksAfter (w : Spaces n m C) (c : Fin n) (e : Event m C) (root : Nat) : TaskRef n → TaskSpace :=
  match e with
  | .call (.taskNew _) => Function.update w.task (.task w.sys.nextId) ⟨root, none⟩
  | .call .init => Function.update w.task (.idle c) ⟨w.active c, none⟩
  | .call .initThisCpu => Function.update w.task (.idle c) ⟨w.active c, none⟩
  | _ => w.task

/-- One step of CPU `c`. `replace_address_space` panics when the replacement is not active. -/
def step (w : Spaces n m C) (c : Fin n) : SpaceEvent m C → Option (Spaces n m C)
  | .sched e root =>
    if w.sys.switches c e && !w.activated c then none
    else (w.sys.step c e).map fun s =>
      ⟨s, w.tasksAfter c e root, w.active,
        if w.sys.switches c e then Function.update w.activated c false else w.activated⟩
  | .activateNext =>
    match (w.sys.cpus c).phase, (w.sys.cpus c).current with
    | .switching, some next =>
      if w.activated c then none
      else some { w with
        active := Function.update w.active c (w.task next).root, activated := Function.update w.activated c true }
    | _, _ => none
  | .activate root =>
    match w.sys.runs c with
    | none => none
    | some id =>
      if (w.task (.task id)).borrowed = none then
        some { w with
          active := Function.update w.active c root,
          task := Function.update w.task (.task id) ⟨(w.task (.task id)).root, some (root, w.active c)⟩ }
      else none
  | .restore =>
    match w.sys.runs c with
    | none => none
    | some id =>
      match (w.task (.task id)).borrowed with
      | none => none
      | some (_, previous) =>
        some { w with
          active := Function.update w.active c previous,
          task := Function.update w.task (.task id) ⟨(w.task (.task id)).root, none⟩ }
  | .replaceAddressSpace =>
    match w.sys.runs c with
    | none => none
    | some id =>
      match (w.task (.task id)).borrowed with
      | none => none
      | some (root, _) =>
        if w.active c = root then some { w with task := Function.update w.task (.task id) ⟨root, none⟩ } else none

def run (w : Spaces n m C) : List (Fin n × SpaceEvent m C) → Option (Spaces n m C)
  | [] => some w
  | (c, e) :: es => (w.step c e).bind fun w => w.run es

/-- Every CPU starts on its boot stack, in the root it booted with. -/
def boot (counts : Fin m → Int) (regs : Fin n → C) (zero : C) (roots : Fin n → Nat) : Spaces n m C where
  sys := Sys.boot counts regs zero
  task
    | .idle c => ⟨roots c, none⟩
    | .task _ => ⟨0, none⟩
  active := roots
  activated := fun _ => false

/-- The CPU translates through the root of the task it executes, or through the one that this task has activated over it;
between the activation in `schedule` and `context_switch`, through the root of the task it goes to. -/
def InPlace (w : Spaces n m C) (c : Fin n) : Prop :=
  if w.activated c then
    (w.sys.cpus c).phase = .switching ∧ ∃ next, (w.sys.cpus c).current = some next ∧ w.active c = (w.task next).root
  else
    w.active c = (w.task (w.sys.cpus c).stack).root ∨
      ∃ previous, (w.task (w.sys.cpus c).stack).borrowed = some (w.active c, previous)

structure Own (w : Spaces n m C) : Prop where
  sched : Sched.Inv w.sys
  idle : ∀ c, (w.task (.idle c)).borrowed = none
  previous : ∀ t b, (w.task t).borrowed = some b → b.2 = (w.task t).root
  inPlace : ∀ c, w.InPlace c

variable {w w' : Spaces n m C} {c d : Fin n}

/-- A step that leaves the CPU where it is. -/
theorem InPlace.congr (h : w.InPlace d) (hph : (w'.sys.cpus d).phase = (w.sys.cpus d).phase)
    (hcurrent : (w'.sys.cpus d).current = (w.sys.cpus d).current) (hstack : (w'.sys.cpus d).stack = (w.sys.cpus d).stack)
    (hactive : w'.active d = w.active d) (hactivated : w'.activated d = w.activated d)
    (htask : ∀ t, (w.sys.cpus d).stack = t ∨ (w.sys.cpus d).current = some t → w'.task t = w.task t) : w'.InPlace d := by
  unfold InPlace at h ⊢
  rw [hph, hcurrent, hstack, hactive, hactivated, htask _ (.inl rfl)]
  by_cases hd : w.activated d = true
  · rw [if_pos hd] at h ⊢
    obtain ⟨hsw, next, hnext, hroot⟩ := h
    exact ⟨hsw, next, hnext, by rw [htask next (.inr hnext)]; exact hroot⟩
  · rw [if_neg hd] at h ⊢
    exact h

/-- A step that stays on the stack, by a CPU that has activated no incoming root. -/
theorem InPlace.stays (h : w.InPlace c) (hnot : w.activated c = false) (hnot' : w'.activated c = false)
    (hactive : w'.active c = w.active c) (hstack : (w'.sys.cpus c).stack = (w.sys.cpus c).stack)
    (htask : w'.task (w.sys.cpus c).stack = w.task (w.sys.cpus c).stack) : w'.InPlace c := by
  rw [InPlace, if_neg (by simp [hnot])] at h
  rw [InPlace, if_neg (by simp [hnot']), hactive, hstack, htask]
  exact h

section Step

variable {id root : Nat}

theorem runs_eq_some_iff {s : Sys n m C} : s.runs c = some id ↔ (s.cpus c).phase = .run ∧ (s.cpus c).stack = .task id := by
  unfold Sys.runs
  cases hph : (s.cpus c).phase <;> cases hst : (s.cpus c).stack <;> simp

/-- A CPU that is not in the middle of a switch has activated no incoming root. -/
theorem Own.not_activated (h : w.Own) (hph : (w.sys.cpus c).phase ≠ .switching) : w.activated c = false := by
  refine Bool.eq_false_iff.2 fun hact => hph ?_
  have hin := h.inPlace c
  rw [InPlace, if_pos hact] at hin
  exact hin.1

/-- The task that CPU `c` executes is neither executed by another CPU nor current there. -/
theorem Own.elsewhere (h : w.Own) (hruns : w.sys.runs c = some id) (hd : d ≠ c) :
    (w.sys.cpus d).stack ≠ .task id ∧ (w.sys.cpus d).current ≠ some (.task id) := by
  obtain ⟨hph, hstack⟩ := runs_eq_some_iff.1 hruns
  refine ⟨fun hs => hd (h.sched.stack_inj hs hstack), fun hcur => hd ?_⟩
  have hd' : id ∈ w.sys.bag (.current d) := by simp [Sys.bag, hcur, TaskRef.own]
  rcases h.sched.mem_of_stack hstack with hc | hc
  · cases h.sched.place_unique hd' hc
    rfl
  · cases h.sched.place_unique hd' hc

/-- The code of a task changes what the task has and the root of its own CPU. -/
theorem Own.of_runs (h : w.Own) (hruns : w.sys.runs c = some id) {space : TaskSpace} {active : Nat}
    (hprev : ∀ b, space.borrowed = some b → b.2 = space.root)
    (hin : active = space.root ∨ ∃ previous, space.borrowed = some (active, previous)) :
    Own { w with task := Function.update w.task (.task id) space, active := Function.update w.active c active } := by
  obtain ⟨hph, hstack⟩ := runs_eq_some_iff.1 hruns
  have hnot : w.activated c = false := h.not_activated (by simp [hph])
  refine ⟨h.sched, fun d => ?_, fun t b hb => ?_, fun d => ?_⟩
  · simp only [ne_eq, reduceCtorEq, not_false_eq_true, Function.update_of_ne]
    exact h.idle d
  · by_cases ht : t = .task id
    · subst ht
      simp only [Function.update_self] at hb ⊢
      exact hprev b hb
    · simp only [ne_eq, ht, not_false_eq_true, Function.update_of_ne] at hb ⊢
      exact h.previous t b hb
  · by_cases hd : d = c
    · subst hd
      simp only [InPlace, hnot, hstack, Function.update_self, Bool.false_eq_true, if_false]
      exact hin
    · obtain ⟨hne, hcur⟩ := h.elsewhere hruns hd
      refine (h.inPlace d).congr rfl rfl rfl (Function.update_of_ne hd _ _) rfl fun t ht => Function.update_of_ne ?_ _ _
      rintro rfl
      rcases ht with ht | ht
      · exact hne ht
      · exact hcur ht

end Step

section Step

/-! ### The steps -/

theorem nextId_not_mem (h : Sched.Inv w.sys) (p : Place n m) : w.sys.nextId ∉ w.sys.bag p := by
  intro hp
  have hle : (w.sys.bag p).count w.sys.nextId ≤ w.sys.count w.sys.nextId := Lib.count_le_total p
  have hpos := List.count_pos_iff.2 hp
  rw [h.count_eq, if_neg (by omega)] at hle
  omega

/-- A new task runs nowhere yet. -/
theorem new_elsewhere (h : Sched.Inv w.sys) (d : Fin n) :
    (w.sys.cpus d).stack ≠ .task w.sys.nextId ∧ (w.sys.cpus d).current ≠ some (.task w.sys.nextId) := by
  refine ⟨fun hs => ?_, fun hcur => nextId_not_mem h (.current d) (by simp [Sys.bag, hcur, TaskRef.own])⟩
  rcases h.mem_of_stack hs with hp | hp
  · exact nextId_not_mem h _ hp
  · exact nextId_not_mem h _ hp

/-- `init_this_cpu` is called before the CPU has a task, on its boot stack. -/
theorem call_init_stack (h : Sched.Inv w.sys) {s : Sys n m C} {k : Call m C} (hk : k = .init ∨ k = .initThisCpu)
    (hs : w.sys.call c k = some s) : (w.sys.cpus c).phase = .run ∧ (w.sys.cpus c).stack = .idle c := by
  have hcur : (w.sys.cpus c).phase = .run ∧ (w.sys.cpus c).current = none := by
    obtain ⟨hph, hcalled, -⟩ := call_cases hs
    refine ⟨hph, ?_⟩
    rcases hk with rfl | rfl
    · cases hcalled with
      | init hnone => exact hnone
    · cases hcalled with
      | initThisCpu hnone => exact hnone
  have hrun : (w.sys.cpus c).phase ≠ .switching := by simp [hcur.1]
  rcases (h.cpu c).current_stack hrun with hsome | ⟨-, hidle⟩
  · rw [hcur.2] at hsome
    cases hsome
  · exact ⟨hcur.1, hidle⟩

/-- The idle task that `init_this_cpu` makes has the root that is active already. -/
theorem idle_space (h : w.Own) (hph : (w.sys.cpus c).phase = .run) (hidle : (w.sys.cpus c).stack = .idle c) :
    Function.update w.task (.idle c) ⟨w.active c, none⟩ = w.task := by
  have hin := h.inPlace c
  rw [InPlace, h.not_activated (by simp [hph]), hidle] at hin
  rcases hin with hroot | ⟨previous, hb⟩
  · rw [hroot]
    refine Function.update_eq_self_iff.2 ?_
    rw [← h.idle c]
  · rw [h.idle c] at hb
    cases hb

/-- A call leaves all tasks alone, except that it makes a new one. -/
theorem call_tasks (h : w.Own) {s : Sys n m C} {k : Call m C} (hs : w.sys.call c k = some s) (root : Nat) :
    w.tasksAfter c (.call k) root = w.task ∨
      w.tasksAfter c (.call k) root = Function.update w.task (.task w.sys.nextId) ⟨root, none⟩ := by
  cases k with
  | taskNew ctx => exact Or.inr rfl
  | init =>
    obtain ⟨hph, hidle⟩ := call_init_stack h.sched (.inl rfl) hs
    exact Or.inl (idle_space h hph hidle)
  | initThisCpu =>
    obtain ⟨hph, hidle⟩ := call_init_stack h.sched (.inr rfl) hs
    exact Or.inl (idle_space h hph hidle)
  | _ => exact Or.inl rfl

/-- A step of CPU `c` in the scheduler that stays on its stack. -/
theorem Own.of_keeps (h : w.Own) {s : Sys n m C} (hinv : Sched.Inv s) (hkeeps : Keeps c w.sys s)
    (hph : (w.sys.cpus c).phase ≠ .switching) {task : TaskRef n → TaskSpace} {root : Nat}
    (htask : task = w.task ∨ task = Function.update w.task (.task w.sys.nextId) ⟨root, none⟩) :
    Own ⟨s, task, w.active, w.activated⟩ := by
  have hnot := h.not_activated hph
  have hsame : ∀ t, t ≠ .task w.sys.nextId → task t = w.task t := by
    intro t ht
    rcases htask with rfl | rfl
    · rfl
    · exact Function.update_of_ne ht _ _
  refine ⟨hinv, fun d => ?_, fun t b hb => ?_, fun d => ?_⟩
  · show (task (.idle d)).borrowed = none
    rw [hsame _ (by simp)]
    exact h.idle d
  · by_cases ht : t = .task w.sys.nextId
    · rcases htask with rfl | rfl
      · exact h.previous t b hb
      · subst ht
        simp only [Function.update_self] at hb
        cases hb
    · simp only [hsame t ht] at hb ⊢
      exact h.previous t b hb
  · obtain ⟨hstack, hcur⟩ := new_elsewhere h.sched d
    have hnew : ∀ t, (w.sys.cpus d).stack = t ∨ (w.sys.cpus d).current = some t → task t = w.task t := by
      refine fun t ht => hsame t ?_
      rintro rfl
      rcases ht with ht | ht
      · exact hstack ht
      · exact hcur ht
    by_cases hd : d = c
    · subst hd
      exact (h.inPlace d).stays hnot hnot rfl hkeeps.stack (hnew _ (.inl rfl))
    · have hcpu := hkeeps.others d hd
      exact (h.inPlace d).congr (by rw [hcpu]) (by rw [hcpu]) (by rw [hcpu]) rfl rfl hnew

/-- `context_switch`, after the activation of the incoming root. -/
theorem Own.of_switch (h : w.Own) {s : Sys n m C} (hs : w.sys.advance c = some s)
    (hph : (w.sys.cpus c).phase = .switching) (hact : w.activated c = true) :
    Own ⟨s, w.task, w.active, Function.update w.activated c false⟩ ∧ w.active c = (w.task (s.cpus c).stack).root := by
  obtain ⟨hothers, hstack⟩ := advance_switches hs hph
  have hin := h.inPlace c
  rw [InPlace, if_pos hact] at hin
  obtain ⟨-, next, hnext, hroot⟩ := hin
  rw [hstack] at hnext
  cases hnext
  refine ⟨⟨step_inv (e := .advance) h.sched hs, h.idle, h.previous, fun d => ?_⟩, hroot⟩
  by_cases hd : d = c
  · subst hd
    rw [InPlace, if_neg (by simp)]
    exact Or.inl hroot
  · have hcpu := hothers d hd
    exact (h.inPlace d).congr (by rw [hcpu]) (by rw [hcpu]) (by rw [hcpu]) rfl (Function.update_of_ne hd _ _)
      fun _ _ => rfl

theorem compute_own (h : w.Own) (regs : C) :
    Own ⟨w.sys.compute c regs, w.task, w.active, w.activated⟩ := by
  refine ⟨step_inv (e := .compute regs) h.sched rfl, h.idle, h.previous, fun d => ?_⟩
  have hcpu : (((w.sys.compute c regs).cpus d).phase = (w.sys.cpus d).phase ∧
      ((w.sys.compute c regs).cpus d).current = (w.sys.cpus d).current) ∧
      ((w.sys.compute c regs).cpus d).stack = (w.sys.cpus d).stack := by
    by_cases hd : d = c
    · subst hd
      simp [Sys.compute, Sys.setCpu]
    · simp [Sys.compute, Sys.setCpu, Function.update_of_ne hd]
  exact (h.inPlace d).congr hcpu.1.1 hcpu.1.2 hcpu.2 rfl rfl fun _ _ => rfl

/-- **Every step of the scheduler keeps the CPUs in place**, and one that goes to another stack comes to it in its own
root. -/
theorem sched_own {e : Event m C} {root : Nat} (h : w.Own) (hs : w.step c (.sched e root) = some w') :
    w'.Own ∧ ((w'.sys.cpus c).stack ≠ (w.sys.cpus c).stack → w'.active c = (w'.task (w'.sys.cpus c).stack).root) := by
  simp only [step] at hs
  split at hs
  · cases hs
  rename_i hactivated
  obtain ⟨s, hstep, rfl⟩ := Option.map_eq_some_iff.1 hs
  cases e with
  | call k =>
    obtain ⟨hph, hkeeps⟩ := call_keeps hstep
    exact ⟨h.of_keeps (step_inv h.sched hstep) hkeeps (by simp [hph]) (call_tasks h hstep root),
      fun hne => absurd hkeeps.stack hne⟩
  | advance =>
    by_cases hph : (w.sys.cpus c).phase = .switching
    · simp only [Sys.switches, hph, decide_true, Bool.true_and, Bool.not_eq_true', Bool.not_eq_false] at hactivated
      obtain ⟨hown, hroot⟩ := h.of_switch hstep hph hactivated
      simp only [Sys.switches, hph, decide_true, if_true]
      exact ⟨hown, fun _ => hroot⟩
    · have hkeeps := advance_keeps hstep hph
      simp only [Sys.switches, hph, decide_false, Bool.false_eq_true, if_false]
      have htask : w.task = w.task ∨ w.task = Function.update w.task (.task w.sys.nextId) ⟨0, none⟩ := .inl rfl
      exact ⟨h.of_keeps (step_inv h.sched hstep) hkeeps hph htask, fun hne => absurd hkeeps.stack hne⟩
  | compute regs =>
    cases hstep
    refine ⟨compute_own h regs, fun hne => absurd ?_ hne⟩
    simp [Sys.compute, Sys.setCpu]
  | clock =>
    cases hstep
    refine ⟨⟨step_inv (e := .clock) (c := c) h.sched rfl, h.idle, h.previous, fun d => ?_⟩, fun hne => absurd rfl hne⟩
    exact (h.inPlace d).congr rfl rfl rfl rfl rfl fun _ _ => rfl

/-! ### What a step outside the scheduler does -/

theorem activateNext_eq (hs : w.step c .activateNext = some w') :
    ∃ next, (w.sys.cpus c).phase = .switching ∧ (w.sys.cpus c).current = some next ∧
      w' = { w with
        active := Function.update w.active c (w.task next).root, activated := Function.update w.activated c true } := by
  simp only [step] at hs
  split at hs
  · rename_i next hph hcur
    split at hs
    · cases hs
    · exact ⟨next, hph, hcur, (Option.some.inj hs).symm⟩
  · cases hs

theorem activate_eq {root : Nat} (hs : w.step c (.activate root) = some w') :
    ∃ id, w.sys.runs c = some id ∧ (w.task (.task id)).borrowed = none ∧
      w' = { w with
        active := Function.update w.active c root,
        task := Function.update w.task (.task id) ⟨(w.task (.task id)).root, some (root, w.active c)⟩ } := by
  simp only [step] at hs
  split at hs
  · cases hs
  rename_i id hruns
  split at hs
  · rename_i hnone
    exact ⟨id, hruns, hnone, (Option.some.inj hs).symm⟩
  · cases hs

theorem restore_eq (hs : w.step c .restore = some w') :
    ∃ id root previous, w.sys.runs c = some id ∧ (w.task (.task id)).borrowed = some (root, previous) ∧
      w' = { w with
        active := Function.update w.active c previous,
        task := Function.update w.task (.task id) ⟨(w.task (.task id)).root, none⟩ } := by
  simp only [step] at hs
  split at hs
  · cases hs
  rename_i id hruns
  split at hs
  · cases hs
  · rename_i root previous hb
    exact ⟨id, root, previous, hruns, hb, (Option.some.inj hs).symm⟩

theorem replaceAddressSpace_eq (hs : w.step c .replaceAddressSpace = some w') :
    ∃ id previous, w.sys.runs c = some id ∧ (w.task (.task id)).borrowed = some (w.active c, previous) ∧
      w' = { w with task := Function.update w.task (.task id) ⟨w.active c, none⟩ } := by
  simp only [step] at hs
  split at hs
  · cases hs
  rename_i id hruns
  split at hs
  · cases hs
  rename_i root previous hb
  split at hs
  · rename_i hactive
    subst hactive
    exact ⟨id, previous, hruns, hb, (Option.some.inj hs).symm⟩
  · cases hs

theorem activateNext_own (h : w.Own) (hs : w.step c .activateNext = some w') : w'.Own := by
  obtain ⟨next, hph, hcur, rfl⟩ := activateNext_eq hs
  refine ⟨h.sched, h.idle, h.previous, fun d => ?_⟩
  by_cases hd : d = c
  · subst hd
    rw [InPlace, if_pos (Function.update_self _ _ _)]
    exact ⟨hph, next, hcur, Function.update_self _ _ _⟩
  · exact (h.inPlace d).congr rfl rfl rfl (Function.update_of_ne hd _ _) (Function.update_of_ne hd _ _) fun _ _ => rfl

theorem activate_own {root : Nat} (h : w.Own) (hs : w.step c (.activate root) = some w') : w'.Own := by
  obtain ⟨id, hruns, hnone, rfl⟩ := activate_eq hs
  obtain ⟨hph, hstack⟩ := runs_eq_some_iff.1 hruns
  refine h.of_runs hruns (fun b hb => ?_) (.inr ⟨_, rfl⟩)
  -- what the task finds is its own root
  have hin := h.inPlace c
  rw [InPlace, h.not_activated (by simp [hph]), hstack] at hin
  simp only [Bool.false_eq_true, if_false, hnone, reduceCtorEq, exists_false, or_false] at hin
  cases hb
  exact hin

theorem restore_own (h : w.Own) (hs : w.step c .restore = some w') : w'.Own := by
  obtain ⟨id, root, previous, hruns, hb, rfl⟩ := restore_eq hs
  exact h.of_runs hruns (fun b hb => by cases hb) (.inl (h.previous _ _ hb))

theorem replaceAddressSpace_own (h : w.Own) (hs : w.step c .replaceAddressSpace = some w') : w'.Own := by
  obtain ⟨id, previous, hruns, -, rfl⟩ := replaceAddressSpace_eq hs
  have hown : Own { w with
      task := Function.update w.task (.task id) ⟨w.active c, none⟩
      active := Function.update w.active c (w.active c) } := h.of_runs hruns (fun b hb => by cases hb) (.inl rfl)
  rw [Function.update_eq_self] at hown
  exact hown

/-- **Every step keeps the CPUs in place.** -/
theorem step_own {e : SpaceEvent m C} (h : w.Own) (hs : w.step c e = some w') : w'.Own := by
  cases e with
  | sched e root => exact (sched_own h hs).1
  | activateNext => exact activateNext_own h hs
  | activate root => exact activate_own h hs
  | restore => exact restore_own h hs
  | replaceAddressSpace => exact replaceAddressSpace_own h hs

theorem boot_own (counts : Fin m → Int) (regs : Fin n → C) (zero : C) (roots : Fin n → Nat) :
    (boot counts regs zero roots).Own where
  sched := boot_inv counts regs zero
  idle := fun _ => rfl
  previous := by
    intro t b hb
    cases t <;> cases hb
  inPlace := fun _ => Or.inl rfl

/-- A CPU comes to another stack by `context_switch` only, in the root of that task. -/
theorem step_stack {e : SpaceEvent m C} (h : w.Own) (hs : w.step c e = some w')
    (hne : (w'.sys.cpus c).stack ≠ (w.sys.cpus c).stack) : w'.active c = (w'.task (w'.sys.cpus c).stack).root := by
  cases e with
  | sched e root => exact (sched_own h hs).2 hne
  | activateNext =>
    obtain ⟨next, -, -, rfl⟩ := activateNext_eq hs
    exact absurd rfl hne
  | activate root =>
    obtain ⟨id, -, -, rfl⟩ := activate_eq hs
    exact absurd rfl hne
  | restore =>
    obtain ⟨id, root, previous, -, -, rfl⟩ := restore_eq hs
    exact absurd rfl hne
  | replaceAddressSpace =>
    obtain ⟨id, previous, -, -, rfl⟩ := replaceAddressSpace_eq hs
    exact absurd rfl hne

/-- A task whose own root stays. -/
theorem root_update {task : TaskRef n → TaskSpace} {id own : Nat} {borrowed : Option (Nat × Nat)} :
    (Function.update task (.task own) ⟨(task (.task own)).root, borrowed⟩ (.task id)).root = (task (.task id)).root := by
  by_cases heq : id = own
  · subst heq
    rw [Function.update_self]
  · rw [Function.update_of_ne (by simpa using heq)]

/-- The root of a task that exists is changed by that task's own call only, to the one that its CPU translates through. -/
theorem step_root {e : SpaceEvent m C} (h : w.Own) (hs : w.step c e = some w') {id : Nat} (hid : id < w.sys.nextId)
    (hne : (w'.task (.task id)).root ≠ (w.task (.task id)).root) :
    (w.sys.cpus c).stack = .task id ∧ w'.active c = (w'.task (.task id)).root := by
  cases e with
  | sched e root =>
    simp only [step] at hs
    split at hs
    · cases hs
    obtain ⟨s, hstep, rfl⟩ := Option.map_eq_some_iff.1 hs
    refine absurd ?_ hne
    cases e with
    | call k =>
      rcases call_tasks h hstep root with htask | htask
      · simp only [htask]
      · have hold : (TaskRef.task id : TaskRef n) ≠ .task w.sys.nextId := by
          intro heq
          cases heq
          omega
        simp only [htask, Function.update_of_ne hold]
    | _ => rfl
  | activateNext =>
    obtain ⟨next, -, -, rfl⟩ := activateNext_eq hs
    exact absurd rfl hne
  | activate root =>
    obtain ⟨own, -, -, rfl⟩ := activate_eq hs
    exact absurd root_update hne
  | restore =>
    obtain ⟨own, root, previous, -, -, rfl⟩ := restore_eq hs
    exact absurd root_update hne
  | replaceAddressSpace =>
    obtain ⟨own, previous, hruns, -, rfl⟩ := replaceAddressSpace_eq hs
    by_cases heq : id = own
    · subst heq
      refine ⟨(runs_eq_some_iff.1 hruns).2, ?_⟩
      simp only [Function.update_self]
    · have hother : (TaskRef.task id : TaskRef n) ≠ .task own := by simpa using heq
      refine absurd ?_ hne
      simp only [Function.update_of_ne hother]

end Step

/-- **Address spaces follow their tasks**: in every run on any number of CPUs each CPU is in place, it comes to another task
in that task's own root, and the root of a task is changed by its own calls only, to the one that is active. -/
theorem own_address_space (counts : Fin m → Int) (regs : Fin n → C) (zero : C) (roots : Fin n → Nat)
    (es : List (Fin n × SpaceEvent m C)) :
    Lib.Visits (fun w p => w.step p.1 p.2) (fun w : Spaces n m C => ∀ c, w.InPlace c) (boot counts regs zero roots) es ∧
      Lib.Takes (fun w p => w.step p.1 p.2)
        (fun (w : Spaces n m C) p w' =>
          ((w'.sys.cpus p.1).stack ≠ (w.sys.cpus p.1).stack →
            w'.active p.1 = (w'.task (w'.sys.cpus p.1).stack).root) ∧
          ∀ id, id < w.sys.nextId → (w'.task (.task id)).root ≠ (w.task (.task id)).root →
            (w.sys.cpus p.1).stack = .task id ∧ w'.active p.1 = (w'.task (.task id)).root)
        (boot counts regs zero roots) es := by
  have hall : Lib.Meets (fun (w : Spaces n m C) p => w.step p.1 p.2) (fun _ _ => True) (boot counts regs zero roots) es :=
    Lib.Meets.of_forall fun _ _ => trivial
  constructor
  · have hown : Lib.Visits (fun (w : Spaces n m C) p => w.step p.1 p.2) Own (boot counts regs zero roots) es :=
      Lib.Visits.of_step (fun _ _ _ h _ hs => step_own h hs) (boot_own counts regs zero roots) hall
    exact hown.imp fun _ h => h.inPlace
  · exact Lib.Takes.of_step (fun _ _ _ h _ hs => ⟨step_own h hs, step_stack h hs, fun _ hid hne => step_root h hs hid hne⟩)
      (boot_own counts regs zero roots) hall

local instance lone_cpu : NeZero 1 := ⟨by decide⟩

/-- The CPU yields and goes to the next task. -/
def switchEvents : List (Fin 1 × SpaceEvent 1 Nat) :=
  [(0, .sched (.call .yieldNow) 0), (0, .sched .advance 0), (0, .sched .advance 0), (0, .activateNext),
    (0, .sched .advance 0), (0, .sched .advance 0), (0, .sched .advance 0)]

/-- Task 1, with the root 5, runs and activates the root 9. -/
def activateRun : List (Fin 1 × SpaceEvent 1 Nat) :=
  ([(0, .sched (.call .init) 0), (0, .sched (.call (.taskNew 7)) 5), (0, .sched (.call (.spawn 1)) 0)] :
    List (Fin 1 × SpaceEvent 1 Nat)) ++ switchEvents ++ ([(0, .activate 9)] : List (Fin 1 × SpaceEvent 1 Nat))

/-- The replacement is installed when nothing comes between. A task that is switched out and back between `activate` and
`replace_address_space` runs in its old root again, and the assertion there fails. -/
theorem interrupted_replace :
    (((boot (fun _ => 0) (fun _ => 0) 0 fun _ => 2).run (activateRun ++ [(0, .replaceAddressSpace)])).map
        fun w => (w.active 0, w.task (.task 1))) = some (9, ⟨9, none⟩) ∧
      (((boot (fun _ => 0) (fun _ => 0) 0 fun _ => 2).run (activateRun ++ switchEvents ++ switchEvents)).map
        fun w => (w.active 0, w.task (.task 1), w.sys.runs 0)) = some (5, ⟨5, some (9, 5)⟩, some 1) ∧
      ((boot (fun _ => 0) (fun _ => 0) 0 fun _ => 2).run
        (activateRun ++ switchEvents ++ switchEvents ++ [(0, .replaceAddressSpace)])).isNone := by
  decide

end Spaces

end Koros.Sched
