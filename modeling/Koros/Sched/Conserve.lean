import Koros.Sched.Model
import Mathlib.Algebra.Ring.Nat

/-!
# Task conservation

Every spawned task is in exactly one place, over every interleaving of the CPUs' critical sections, and a task in a
queue has its context saved.

- each state update changes `Sys.count`, the copies of a task over all places, by what it moves (`count_setCpu`,
  `count_pushReady`, `count_setSem` and so on);
- what a critical section and a call can do (`advance_cases`, `call_cases`), from which every invariant is proved;
- the invariant `Inv` (one copy of every created task, each CPU's slots agree with the stack it runs on, contexts of
  tasks that no CPU runs on are saved) holds at boot (`boot_inv`) and after every step (`step_inv`);
- the place of a task in a reachable state (`task_conservation`).
-/
set_option autoImplicit false

namespace Koros.Sched

open Koros.Lib

/-! ## Places -/

inductive Place (n m : Nat) where
  | current (cpu : Fin n)
  /-- The slot of the outgoing task. -/
  | prev (cpu : Fin n)
  /-- A local variable of the scheduler's code on a CPU, between two critical sections. -/
  | hand (cpu : Fin n)
  | ready
  | sleepers
  | zombies
  | waitQueue (wq : Fin m)
  /-- Built, not spawned yet. -/
  | unborn
  | reclaimed
deriving DecidableEq, Fintype, Repr

/-- The queues, where other CPUs find tasks. -/
def Place.IsQueue {n m : Nat} : Place n m → Prop
  | .ready => True
  | .sleepers => True
  | .zombies => True
  | .waitQueue _ => True
  | _ => False

/-- The places of a live task between calls: a CPU's two slots and the queues. -/
def Place.IsSlotOrQueue {n m : Nat} : Place n m → Prop
  | .current _ => True
  | .prev _ => True
  | p => p.IsQueue

section

variable {n m : Nat} {C : Type}

/-- Idle tasks are not counted. -/
def TaskRef.own : TaskRef n → List Nat
  | .idle _ => []
  | .task id => [id]

def ids (l : List (TaskRef n)) : List Nat := l.flatMap TaskRef.own

@[simp] theorem ids_nil : ids ([] : List (TaskRef n)) = [] := rfl

@[simp] theorem ids_cons (t : TaskRef n) (l : List (TaskRef n)) : ids (t :: l) = t.own ++ ids l := rfl

@[simp] theorem ids_append (l l' : List (TaskRef n)) : ids (l ++ l') = ids l ++ ids l' := List.flatMap_append ..

theorem mem_own {t : TaskRef n} {id : Nat} : id ∈ t.own ↔ t = .task id := by
  cases t with
  | idle c => simp [TaskRef.own]
  | task k => simp only [TaskRef.own, List.mem_singleton, TaskRef.task.injEq]; exact eq_comm

theorem mem_ids {l : List (TaskRef n)} {id : Nat} : id ∈ ids l ↔ .task id ∈ l := by
  simp [ids, mem_own]

theorem ids_perm {l l' : List (TaskRef n)} (h : l.Perm l') : (ids l).Perm (ids l') := h.flatMap_right _

/-- What the scheduler's code on a CPU holds in a local variable. -/
def Phase.hand : Phase n m → List (TaskRef n)
  | .picked next _ => [next]
  | .transition prev _ => [prev]
  | .waking tasks => tasks
  | .tickWake _ _ t => [t]
  | _ => []

namespace Sys

/-- The non-idle tasks in each place. -/
def bag (s : Sys n m C) : Place n m → List Nat
  | .current c => ids (s.cpus c).current.toList
  | .prev c => ids ((s.cpus c).prev.map Prod.fst).toList
  | .hand c => ids (s.cpus c).phase.hand
  | .ready => ids s.readyQueue
  | .sleepers => ids s.sleepers
  | .zombies => ids s.zombies
  | .waitQueue w => ids (s.sems w).wq.list
  | .unborn => s.unborn
  | .reclaimed => ids s.reclaimed

/-- Copies of task `id` over all places. -/
def count (s : Sys n m C) (id : Nat) : Nat := total s.bag id

/-- Copies of task `id` on one CPU. -/
def cpuCount (cpu : PerCpu n m C) (id : Nat) : Nat :=
  (ids cpu.current.toList).count id + (ids (cpu.prev.map Prod.fst).toList).count id + (ids cpu.phase.hand).count id

/-! ## What each update does to the count -/

variable (s : Sys n m C) (id : Nat)

@[simp] theorem cpus_setCpu (c : Fin n) (f : PerCpu n m C → PerCpu n m C) :
    (s.setCpu c f).cpus = Function.update s.cpus c (f (s.cpus c)) := rfl

theorem count_setCpu (c : Fin n) (f : PerCpu n m C → PerCpu n m C) :
    (s.setCpu c f).count id + cpuCount (s.cpus c) id = s.count id + cpuCount (f (s.cpus c)) id := by
  have h := @total_change _ _ _ _ s.bag (s.setCpu c f).bag id _ {.current c, .prev c, .hand c} ?_
  · simpa [count, bag, cpuCount, Nat.add_assoc] using h
  · intro p hp
    simp only [Finset.mem_insert, Finset.mem_singleton, not_or] at hp
    cases p with
    | current d =>
      have hd : d ≠ c := by rintro rfl; exact hp.1 rfl
      simp [bag, Function.update_of_ne hd]
    | prev d =>
      have hd : d ≠ c := by rintro rfl; exact hp.2.1 rfl
      simp [bag, Function.update_of_ne hd]
    | hand d =>
      have hd : d ≠ c := by rintro rfl; exact hp.2.2 rfl
      simp [bag, Function.update_of_ne hd]
    | _ => rfl

theorem count_setPhase (c : Fin n) (ph : Phase n m) :
    (s.setPhase c ph).count id + (ids (s.cpus c).phase.hand).count id = s.count id + (ids ph.hand).count id := by
  have h := s.count_setCpu id c fun cpu => { cpu with phase := ph }
  simp only [cpuCount] at h
  unfold setPhase
  omega

@[simp] theorem count_setState (t : TaskRef n) (st : TaskState) : (s.setState t st).count id = s.count id := rfl

@[simp] theorem sems_setState (t : TaskRef n) (st : TaskState) : (s.setState t st).sems = s.sems := rfl

@[simp] theorem count_setResume (t : TaskRef n) (r : Resume m) : (s.setResume t r).count id = s.count id := rfl

variable {s id} in
/-- Only one place changes. -/
theorem count_change {s' : Sys n m C} (p : Place n m) (hout : ∀ r, r ≠ p → s'.bag r = s.bag r) :
    s'.count id + (s.bag p).count id = s.count id + (s'.bag p).count id := total_change_one p hout

theorem count_ready (q : List (TaskRef n)) :
    ({ s with readyQueue := q } : Sys n m C).count id + (ids s.readyQueue).count id = s.count id + (ids q).count id :=
  count_change .ready fun r hr => by cases r <;> first | rfl | exact absurd rfl hr

theorem count_pushReady (t : TaskRef n) : (s.pushReady t).count id = s.count id + t.own.count id := by
  have h := s.count_ready id (s.readyQueue ++ [t])
  simp only [ids_append, ids_cons, ids_nil, List.append_nil, List.count_append] at h
  unfold pushReady
  omega

theorem count_sleepers (q : List (TaskRef n)) :
    ({ s with sleepers := q } : Sys n m C).count id + (ids s.sleepers).count id = s.count id + (ids q).count id :=
  count_change .sleepers fun r hr => by cases r <;> first | rfl | exact absurd rfl hr

theorem count_pushSleeper (t : TaskRef n) : (s.pushSleeper t).count id = s.count id + t.own.count id := by
  have h := s.count_sleepers id (s.sleepers ++ [t])
  simp only [ids_append, ids_cons, ids_nil, List.append_nil, List.count_append] at h
  unfold pushSleeper
  omega

theorem count_zombies (q : List (TaskRef n)) :
    ({ s with zombies := q } : Sys n m C).count id + (ids s.zombies).count id = s.count id + (ids q).count id :=
  count_change .zombies fun r hr => by cases r <;> first | rfl | exact absurd rfl hr

theorem count_pushZombie (t : TaskRef n) : (s.pushZombie t).count id = s.count id + t.own.count id := by
  have h := s.count_zombies id (s.zombies ++ [t])
  simp only [ids_append, ids_cons, ids_nil, List.append_nil, List.count_append] at h
  unfold pushZombie
  omega

theorem count_reclaimed (q : List (TaskRef n)) :
    ({ s with reclaimed := q } : Sys n m C).count id + (ids s.reclaimed).count id = s.count id + (ids q).count id :=
  count_change .reclaimed fun r hr => by cases r <;> first | rfl | exact absurd rfl hr

theorem count_unborn (q : List Nat) :
    ({ s with unborn := q } : Sys n m C).count id + s.unborn.count id = s.count id + q.count id :=
  count_change .unborn fun r hr => by cases r <;> first | rfl | exact absurd rfl hr

theorem count_setSem (w : Fin m) (sem : Semaphore n) :
    (s.setSem w sem).count id + (ids (s.sems w).wq.list).count id = s.count id + (ids sem.wq.list).count id := by
  have h := @total_change_one _ _ _ _ s.bag (s.setSem w sem).bag id _ (.waitQueue w) ?_
  · simpa [count, bag, setSem] using h
  · intro r hr
    cases r with
    | waitQueue d =>
      have hd : d ≠ w := by rintro rfl; exact hr rfl
      simp [bag, setSem, Function.update_of_ne hd]
    | _ => rfl

end Sys

/-! ## The invariant -/

/-- The slots of CPU `c` agree with the stack it executes on. -/
structure CpuOk (c : Fin n) (cpu : PerCpu n m C) : Prop where
  idle_eq : ∀ t, cpu.idle = some t → t = .idle c
  prev_eq : cpu.phase ≠ .switching → cpu.phase ≠ .finish → cpu.prev = none
  prev_stack : cpu.phase = .switching → ∃ a, cpu.prev = some (cpu.stack, a)
  current_stack : cpu.phase ≠ .switching → cpu.current = some cpu.stack ∨ cpu.current = none ∧ cpu.stack = .idle c

/-- The registers of a task are on the CPU that executes it, else in its saved context. -/
structure Saved (s : Sys n m C) : Prop where
  off_cpu : ∀ id, (∀ c, (s.cpus c).stack ≠ .task id) → s.ctx (.task id) = s.live (.task id)
  on_cpu : ∀ c id, (s.cpus c).stack = .task id → (s.cpus c).regs = s.live (.task id)

structure Inv (s : Sys n m C) : Prop where
  nextId_pos : 1 ≤ s.nextId
  count_eq : ∀ id, s.count id = if 1 ≤ id ∧ id < s.nextId then 1 else 0
  cpu : ∀ c, CpuOk c (s.cpus c)
  saved : Saved s

/-- `s'` differs from `s` in its queues only. -/
structure Kept (s s' : Sys n m C) : Prop where
  cpus : s'.cpus = s.cpus
  ctx : s'.ctx = s.ctx
  live : s'.live = s.live
  nextId : s'.nextId = s.nextId

namespace Inv

variable {s s' : Sys n m C}

theorem count_le_one (h : Inv s) (id : Nat) : s.count id ≤ 1 := by
  rw [h.count_eq]
  split <;> omega

theorem place_unique (h : Inv s) {id : Nat} {p q : Place n m} (hp : id ∈ s.bag p) (hq : id ∈ s.bag q) : p = q :=
  eq_of_mem_of_total_le_one (h.count_le_one id) hp hq

/-- The task a CPU executes on is in one of its two slots. -/
theorem mem_of_stack (h : Inv s) {c : Fin n} {id : Nat} (hs : (s.cpus c).stack = .task id) :
    id ∈ s.bag (.current c) ∨ id ∈ s.bag (.prev c) := by
  by_cases hph : (s.cpus c).phase = .switching
  · obtain ⟨a, ha⟩ := (h.cpu c).prev_stack hph
    right
    simp [Sys.bag, ha, hs, TaskRef.own]
  · rcases (h.cpu c).current_stack hph with hc | ⟨-, hi⟩
    · left
      simp [Sys.bag, hc, hs, TaskRef.own]
    · rw [hi] at hs
      cases hs

/-- A task outside the CPUs' slots is executed by no CPU. -/
theorem not_stack (h : Inv s) {id : Nat} {p : Place n m} (hp : id ∈ s.bag p) (hc : ∀ c, p ≠ .current c)
    (hv : ∀ c, p ≠ .prev c) (c : Fin n) : (s.cpus c).stack ≠ .task id := by
  intro hs
  rcases h.mem_of_stack hs with hm | hm
  · exact hc c (h.place_unique hp hm)
  · exact hv c (h.place_unique hp hm)

/-- No two CPUs execute on the same task. -/
theorem stack_inj (h : Inv s) {c d : Fin n} {id : Nat} (hc : (s.cpus c).stack = .task id)
    (hd : (s.cpus d).stack = .task id) : c = d := by
  rcases h.mem_of_stack hc with hm | hm <;> rcases h.mem_of_stack hd with hm' | hm' <;>
    cases h.place_unique hm hm' <;> rfl

/-- Tasks move between queues. -/
theorem of_kept (h : Inv s) (hk : Kept s s') (hcount : ∀ id, s'.count id = s.count id) : Inv s' where
  nextId_pos := by rw [hk.nextId]; exact h.nextId_pos
  count_eq := fun id => by rw [hcount, hk.nextId]; exact h.count_eq id
  cpu := fun c => by rw [hk.cpus]; exact h.cpu c
  saved :=
    ⟨by rw [hk.cpus, hk.ctx, hk.live]; exact h.saved.off_cpu, by rw [hk.cpus, hk.live]; exact h.saved.on_cpu⟩

/-- The same while one CPU moves on in the code, on the same stack. -/
theorem of_setCpu (h : Inv s) {s₀ : Sys n m C} (hk : Kept s s₀) (c : Fin n) {f : PerCpu n m C → PerCpu n m C}
    (hstack : (f (s.cpus c)).stack = (s.cpus c).stack) (hregs : (f (s.cpus c)).regs = (s.cpus c).regs)
    (hok : CpuOk c (f (s.cpus c))) (hcount : ∀ id, (s₀.setCpu c f).count id = s.count id) : Inv (s₀.setCpu c f) := by
  -- the stacks and the registers of all CPUs are unchanged
  have hsr : ∀ d, ((s₀.setCpu c f).cpus d).stack = (s.cpus d).stack ∧ ((s₀.setCpu c f).cpus d).regs = (s.cpus d).regs := by
    intro d
    rw [Sys.cpus_setCpu, hk.cpus]
    by_cases hd : d = c
    · subst hd; rw [Function.update_self]; exact ⟨hstack, hregs⟩
    · rw [Function.update_of_ne hd]; exact ⟨rfl, rfl⟩
  constructor
  · show 1 ≤ s₀.nextId
    rw [hk.nextId]
    exact h.nextId_pos
  · intro id
    rw [hcount]
    show _ = if 1 ≤ id ∧ id < s₀.nextId then 1 else 0
    rw [hk.nextId]
    exact h.count_eq id
  · intro d
    rw [Sys.cpus_setCpu, hk.cpus]
    by_cases hd : d = c
    · subst hd; rw [Function.update_self]; exact hok
    · rw [Function.update_of_ne hd]; exact h.cpu d
  · constructor
    · intro id hid
      show s₀.ctx _ = s₀.live _
      rw [hk.ctx, hk.live]
      exact h.saved.off_cpu id fun d => by rw [← (hsr d).1]; exact hid d
    · intro d id hid
      show _ = s₀.live _
      rw [(hsr d).2, hk.live]
      exact h.saved.on_cpu d id (by rw [← (hsr d).1]; exact hid)

end Inv

/-- A CPU that is not in the middle of a switch moves to another such position. -/
theorem CpuOk.phase {c : Fin n} {cpu : PerCpu n m C} (h : CpuOk c cpu) (h₁ : cpu.phase ≠ .switching)
    (h₂ : cpu.phase ≠ .finish) {ph : Phase n m} (h₃ : ph ≠ .switching) (sl : Nat) :
    CpuOk c { cpu with phase := ph, slice := sl } where
  idle_eq := h.idle_eq
  prev_eq := fun _ _ => h.prev_eq h₁ h₂
  prev_stack := fun he => absurd he h₃
  current_stack := fun _ => h.current_stack h₁

/-- Tasks move between queues and the hand of a CPU that is not in the middle of a switch. -/
theorem Inv.setPhase {s s₀ : Sys n m C} (h : Inv s) (hk : Kept s s₀) {c : Fin n} {ph : Phase n m}
    (h₁ : (s.cpus c).phase ≠ .switching) (h₂ : (s.cpus c).phase ≠ .finish) (h₃ : ph ≠ .switching)
    (hcount : ∀ id, s₀.count id + (ids ph.hand).count id = s.count id + (ids (s.cpus c).phase.hand).count id) :
    Inv (s₀.setPhase c ph) := by
  apply h.of_setCpu hk c rfl rfl ((h.cpu c).phase h₁ h₂ h₃ _)
  intro id
  have h₁ := s₀.count_setPhase id c ph
  have h₂ := hcount id
  rw [hk.cpus] at h₁
  unfold Sys.setPhase at h₁
  omega

/-! ## The steps of a switch -/

/-- The critical sections that go through, each with the phase it is in and what it does. -/
inductive Advanced (s : Sys n m C) (c : Fin n) : Sys n m C → Prop where
  | picks {a : Action m} {t : TaskRef n} {rest : List (TaskRef n)} (hph : (s.cpus c).phase = .schedule a)
      (hq : s.readyQueue = t :: rest) : Advanced s c ({ s with readyQueue := rest }.setPhase c (.picked t a))
  | idles {a : Action m} {t : TaskRef n} (hph : (s.cpus c).phase = .schedule a) (hidle : (s.cpus c).idle = some t) :
      Advanced s c (s.setPhase c (.picked t a))
  | staysOn {t : TaskRef n} (hph : (s.cpus c).phase = .picked t .toReady) (hcur : (s.cpus c).current = some t) :
      Advanced s c (s.setPhase c .run)
  | installs {a : Action m} {next prev : TaskRef n} (hph : (s.cpus c).phase = .picked next a)
      (hcur : (s.cpus c).current = some prev) : Advanced s c ((s.setState next .running).setCpu c fun cpu =>
        { cpu with prev := some (prev, a), current := some next, slice := timeSlice, phase := .switching })
  | switches {a : Action m} {next prev : TaskRef n} (hph : (s.cpus c).phase = .switching)
      (hprev : (s.cpus c).prev = some (prev, a)) (hcur : (s.cpus c).current = some next) :
      Advanced s c ({ s with ctx := Function.update s.ctx prev (s.cpus c).regs }.setCpu c fun cpu =>
        { cpu with stack := next, regs := Function.update s.ctx prev (s.cpus c).regs next, phase := .finish })
  | takesPrev {a : Action m} {prev : TaskRef n} (hph : (s.cpus c).phase = .finish)
      (hprev : (s.cpus c).prev = some (prev, a)) :
      Advanced s c (s.setCpu c fun cpu => { cpu with prev := none, phase := .transition prev a })
  | noPrev (hph : (s.cpus c).phase = .finish) (hprev : (s.cpus c).prev = none) : Advanced s c (s.setPhase c .run)
  | restsIdle {prev : TaskRef n} (hph : (s.cpus c).phase = .transition prev .toReady) (hidle : prev.isIdle = true) :
      Advanced s c (s.setPhase c .run)
  | readies {prev : TaskRef n} (hph : (s.cpus c).phase = .transition prev .toReady) :
      Advanced s c (((s.setState prev .ready).pushReady prev).setPhase c .run)
  | sleeps {prev : TaskRef n} (hph : (s.cpus c).phase = .transition prev .toSleep) :
      Advanced s c (((s.setState prev .sleeping).pushSleeper prev).setPhase c .run)
  | dies {prev : TaskRef n} (hph : (s.cpus c).phase = .transition prev .toZombie) :
      Advanced s c (((s.setState prev .exited).pushZombie prev).setPhase c .run)
  | parks {prev : TaskRef n} {w : Fin m} (hph : (s.cpus c).phase = .transition prev (.toWait w)) :
      Advanced s c (((s.setState prev .blocked).setSem w
        { s.sems w with wq := { list := (s.sems w).wq.list ++ [prev], lock := false } }).setPhase c .run)
  | woke (hph : (s.cpus c).phase = .waking []) : Advanced s c (s.setPhase c .run)
  | wakes {t : TaskRef n} {ts : List (TaskRef n)} (hph : (s.cpus c).phase = .waking (t :: ts)) :
      Advanced s c (((s.setState t .ready).pushReady t).setPhase c (.waking ts))
  | due {now i : Nat} {t : TaskRef n} (hph : (s.cpus c).phase = .ticking now i) (ht : s.sleepers[i]? = some t)
      (hdue : s.wakeTick t ≤ now) :
      Advanced s c ({ s with sleepers := swapRemove s.sleepers i }.setPhase c (.tickWake now i t))
  | notDue {now i : Nat} (hph : (s.cpus c).phase = .ticking now i) :
      Advanced s c (s.setPhase c (.ticking now (i + 1)))
  | ticked {now i : Nat} (hph : (s.cpus c).phase = .ticking now i) : Advanced s c
      ({ s with sleepersLock := false }.setCpu c fun cpu => { cpu with slice := cpu.slice - 1, phase := .run })
  | tickWakes {now i : Nat} {t : TaskRef n} (hph : (s.cpus c).phase = .tickWake now i t) :
      Advanced s c (((s.setState t .ready).pushReady t).setPhase c (.ticking now i))

section Switch

variable {s s' : Sys n m C} {c : Fin n}

/-- **What a critical section can do.** -/
theorem advance_cases (hs : s.advance c = some s') : Advanced s c s' := by
  unfold Sys.advance at hs
  split at hs
  case h_1 => cases hs
  case h_2 a hph =>
    unfold Sys.pickNext at hs
    split at hs
    · rename_i hq
      cases hs
      exact .picks hph hq
    · split at hs
      · rename_i hidle
        cases hs
        exact .idles hph hidle
      · cases hs
  case h_3 next a hph =>
    unfold Sys.switchTo at hs
    split at hs
    · cases hs
    · rename_i hcur
      split at hs
      · rename_i heq
        cases hs
        obtain ⟨rfl, rfl⟩ := heq
        exact .staysOn hph hcur
      · cases hs
        exact .installs hph hcur
  case h_4 hph =>
    unfold Sys.contextSwitch at hs
    split at hs
    · rename_i hprev hcur
      cases hs
      exact .switches hph hprev hcur
    · cases hs
  case h_5 hph =>
    cases hs
    unfold Sys.finishSwitch
    split
    · rename_i hprev
      exact .takesPrev hph hprev
    · rename_i hprev
      exact .noPrev hph hprev
  case h_6 prev a hph =>
    cases a with
    | toReady =>
      simp only [Sys.applyTransition] at hs
      split at hs
      · rename_i hidle
        cases hs
        exact .restsIdle hph hidle
      · cases hs
        exact .readies hph
    | toSleep =>
      simp only [Sys.applyTransition] at hs
      split at hs
      · cases hs
      · cases hs
        exact .sleeps hph
    | toZombie => cases hs; exact .dies hph
    | toWait w => cases hs; exact .parks hph
  case h_7 ts hph =>
    cases hs
    cases ts with
    | nil => exact .woke hph
    | cons t ts => exact .wakes hph
  case h_8 now i hph =>
    cases hs
    unfold Sys.tickStep
    split
    · rename_i ht
      split
      · rename_i hdue
        exact .due hph ht hdue
      · exact .notDue hph
    · exact .ticked hph
  case h_9 now i t hph => cases hs; exact .tickWakes hph

theorem stack_of_picked (h : Inv s) {a : Action m} {next prev : TaskRef n} (hph : (s.cpus c).phase = .picked next a)
    (hcur : (s.cpus c).current = some prev) : prev = (s.cpus c).stack := by
  rcases (h.cpu c).current_stack (by simp [hph]) with hc | ⟨hc, -⟩
  · rw [hcur] at hc; exact Option.some.inj hc
  · rw [hcur] at hc; cases hc

theorem contextSwitch_inv (h : Inv s) {a : Action m} {next : TaskRef n} (hph : (s.cpus c).phase = .switching)
    (hprev : (s.cpus c).prev = some ((s.cpus c).stack, a)) (hcur : (s.cpus c).current = some next) :
    Inv ({ s with ctx := Function.update s.ctx (s.cpus c).stack (s.cpus c).regs }.setCpu c fun cpu =>
      { cpu with stack := next, regs := Function.update s.ctx (s.cpus c).stack (s.cpus c).regs next,
                 phase := .finish }) := by
  -- the incoming task is on no stack, so its context is the saved one
  have hnext : ∀ id, next = .task id → ∀ d, (s.cpus d).stack ≠ .task id := by
    intro id hid d hd
    have hm : id ∈ s.bag (.current c) := by simp [Sys.bag, hcur, hid, TaskRef.own]
    rcases h.mem_of_stack hd with hm' | hm'
    · cases h.place_unique hm hm'
      have hp : id ∈ s.bag (.prev c) := by simp [Sys.bag, hprev, hd, TaskRef.own]
      cases h.place_unique hm hp
    · cases h.place_unique hm hm'
  have hup : ∀ d, d ≠ c → ∀ cpu : PerCpu n m C, Function.update s.cpus c cpu d = s.cpus d :=
    fun d hd cpu => Function.update_of_ne hd _ _
  constructor
  · exact h.nextId_pos
  · intro id
    have hc := ({ s with ctx := Function.update s.ctx (s.cpus c).stack (s.cpus c).regs } : Sys n m C).count_setCpu id c
      fun cpu => { cpu with stack := next, regs := Function.update s.ctx (s.cpus c).stack (s.cpus c).regs next,
                            phase := .finish }
    simp only [Sys.cpuCount, hph, Phase.hand] at hc
    refine Eq.trans ?_ (h.count_eq id)
    exact Nat.add_right_cancel hc
  · intro d
    simp only [Sys.cpus_setCpu]
    by_cases hd : d = c
    · subst hd
      rw [Function.update_self]
      refine ⟨(h.cpu d).idle_eq, ?_, ?_, fun _ => Or.inl hcur⟩
      · intro _ h₂; exact absurd rfl h₂
      · intro he; cases he
    · rw [hup d hd]; exact h.cpu d
  · constructor
    · intro id hid
      simp only [Sys.cpus_setCpu] at hid
      simp only [Sys.setCpu]
      by_cases hp : (s.cpus c).stack = .task id
      · rw [hp, Function.update_self]
        exact h.saved.on_cpu c id hp
      · rw [Function.update_of_ne (Ne.symm hp)]
        refine h.saved.off_cpu id fun d => ?_
        by_cases hd : d = c
        · rw [hd]; exact hp
        · rw [← hup d hd]; exact hid d
    · intro d id hid
      simp only [Sys.cpus_setCpu] at hid ⊢
      simp only [Sys.setCpu]
      by_cases hd : d = c
      · subst hd
        rw [Function.update_self] at hid ⊢
        obtain rfl : next = .task id := hid
        show Function.update s.ctx _ _ _ = _
        rw [Function.update_of_ne (Ne.symm (hnext id rfl d))]
        exact h.saved.off_cpu id (hnext id rfl)
      · rw [hup d hd] at hid ⊢
        exact h.saved.on_cpu d id hid

/-- **One critical section of the scheduler** keeps the invariant. -/
theorem advance_inv (h : Inv s) (hs : s.advance c = some s') : Inv s' := by
  cases advance_cases hs with
  | @picks a t rest hph hq =>
    refine h.setPhase (by exact ⟨rfl, rfl, rfl, rfl⟩) (by simp [hph]) (by simp [hph]) (by simp) fun id => ?_
    have hr := s.count_ready id rest
    rw [hq] at hr
    simp only [hph, Phase.hand, ids_cons, ids_nil, List.count_append, List.count_nil] at hr ⊢
    omega
  | @idles a t hph hidle =>
    obtain rfl := (h.cpu c).idle_eq t hidle
    refine h.setPhase ⟨rfl, rfl, rfl, rfl⟩ (by simp [hph]) (by simp [hph]) (by simp) fun id => ?_
    simp [hph, Phase.hand, TaskRef.own]
  | @staysOn t hph hcur =>
    refine h.setPhase ⟨rfl, rfl, rfl, rfl⟩ (by simp [hph]) (by simp [hph]) (by simp) fun id => ?_
    -- only an idle task can be both current and picked
    have hid : id ∉ t.own := by
      intro hid
      have hcurr : id ∈ s.bag (.current c) := by simpa [Sys.bag, hcur] using hid
      have hhand : id ∈ s.bag (.hand c) := by simpa [Sys.bag, hph, Phase.hand] using hid
      cases h.place_unique hcurr hhand
    simp [hph, Phase.hand, List.count_eq_zero_of_not_mem hid]
  | @installs a next prev hph hcur =>
    have hstack := stack_of_picked h hph hcur
    have hprev : (s.cpus c).prev = none := (h.cpu c).prev_eq (by simp [hph]) (by simp [hph])
    refine h.of_setCpu (by exact ⟨rfl, rfl, rfl, rfl⟩) c rfl rfl ⟨(h.cpu c).idle_eq, ?_, ?_, ?_⟩ fun id => ?_
    · intro h₁; exact absurd rfl h₁
    · intro _; exact ⟨a, by rw [hstack]⟩
    · intro h₁; exact absurd rfl h₁
    · have hc := (s.setState next .running).count_setCpu id c fun cpu =>
        { cpu with prev := some (prev, a), current := some next, slice := timeSlice, phase := .switching }
      simp only [Sys.count_setState] at hc
      simp only [Sys.cpuCount, Sys.setState, hcur, hprev, hph, Phase.hand, Option.map_none, Option.map_some,
        Option.toList_none, Option.toList_some, ids_cons, ids_nil, List.append_nil, List.count_nil] at hc ⊢
      omega
  | switches hph hprev hcur =>
    obtain ⟨_, hstack⟩ := (h.cpu c).prev_stack hph
    rw [hprev] at hstack
    cases hstack
    exact contextSwitch_inv h hph hprev hcur
  | @takesPrev a prev hph hprev =>
    have hcs := (h.cpu c).current_stack (by simp [hph])
    refine h.of_setCpu ⟨rfl, rfl, rfl, rfl⟩ c rfl rfl ⟨(h.cpu c).idle_eq, fun _ _ => rfl, ?_, fun _ => hcs⟩ fun id => ?_
    · intro he; cases he
    · have hc := s.count_setCpu id c fun cpu => { cpu with prev := none, phase := .transition prev a }
      simp only [Sys.cpuCount, hprev, hph, Phase.hand, Option.map_none, Option.map_some, Option.toList_none,
        Option.toList_some, ids_cons, ids_nil, List.append_nil, List.count_nil] at hc ⊢
      omega
  | noPrev hph hprev =>
    have hcs := (h.cpu c).current_stack (by simp [hph])
    refine h.of_setCpu ⟨rfl, rfl, rfl, rfl⟩ c rfl rfl ⟨(h.cpu c).idle_eq, fun _ _ => hprev, ?_, fun _ => hcs⟩ fun id => ?_
    · intro he; cases he
    · have hc : (s.setPhase c .run).count id + _ = _ := s.count_setPhase id c .run
      simp only [hph, Phase.hand, ids_nil, List.count_nil] at hc
      exact hc
  | @restsIdle prev hph hidle =>
    refine h.setPhase ⟨rfl, rfl, rfl, rfl⟩ (by simp [hph]) (by simp [hph]) (by simp) fun id => ?_
    cases prev with
    | idle d => simp [hph, Phase.hand, TaskRef.own]
    | task k => cases hidle
  | readies hph | wakes hph | tickWakes hph =>
    refine h.setPhase (by exact ⟨rfl, rfl, rfl, rfl⟩) (by simp [hph]) (by simp [hph]) (by simp) fun id => ?_
    simp [hph, Phase.hand, Sys.count_pushReady, Nat.add_assoc]
  | sleeps hph =>
    refine h.setPhase (by exact ⟨rfl, rfl, rfl, rfl⟩) (by simp [hph]) (by simp [hph]) (by simp) fun id => ?_
    simp [hph, Phase.hand, Sys.count_pushSleeper]
  | dies hph =>
    refine h.setPhase (by exact ⟨rfl, rfl, rfl, rfl⟩) (by simp [hph]) (by simp [hph]) (by simp) fun id => ?_
    simp [hph, Phase.hand, Sys.count_pushZombie]
  | @parks prev w hph =>
    refine h.setPhase (by exact ⟨rfl, rfl, rfl, rfl⟩) (by simp [hph]) (by simp [hph]) (by simp) fun id => ?_
    have hc := (s.setState prev .blocked).count_setSem id w
      { s.sems w with wq := { list := (s.sems w).wq.list ++ [prev], lock := false } }
    simp only [Sys.count_setState, Sys.sems_setState, ids_append, ids_cons, ids_nil, List.append_nil, List.count_append,
      hph, Phase.hand, List.count_nil] at hc ⊢
    omega
  | woke hph | notDue hph =>
    refine h.setPhase ⟨rfl, rfl, rfl, rfl⟩ (by simp [hph]) (by simp [hph]) (by simp) fun id => ?_
    simp [hph, Phase.hand]
  | @due now i t hph ht hdue =>
    refine h.setPhase (by exact ⟨rfl, rfl, rfl, rfl⟩) (by simp [hph]) (by simp [hph]) (by simp) fun id => ?_
    have hc := s.count_sleepers id (swapRemove s.sleepers i)
    have hp := (ids_perm (swapRemove_perm ht)).count_eq id
    simp only [hph, Phase.hand, ids_cons, ids_nil, List.count_append, List.count_nil] at hp ⊢
    omega
  | ticked hph =>
    refine h.of_setCpu (by exact ⟨rfl, rfl, rfl, rfl⟩) c rfl rfl
      ((h.cpu c).phase (by simp [hph]) (by simp [hph]) (by simp) _) fun id => ?_
    have hc := ({ s with sleepersLock := false } : Sys n m C).count_setCpu id c
      fun cpu => { cpu with slice := cpu.slice - 1, phase := .run }
    simp only [Sys.cpuCount, hph, Phase.hand] at hc
    exact Nat.add_right_cancel hc

end Switch

/-! ## The calls -/

/-- The calls that go through, each with what it does. -/
inductive Called (s : Sys n m C) (c : Fin n) : Call m C → Sys n m C → Prop where
  | init (hcur : (s.cpus c).current = none) : Called s c .init { s.initThisCpu c with schedReady := true }
  | initThisCpu (hcur : (s.cpus c).current = none) : Called s c .initThisCpu (s.initThisCpu c)
  | taskNew (ctx : C) : Called s c (.taskNew ctx) (s.taskNew ctx)
  | spawn {id : Nat} (hid : id ∈ s.unborn) :
      Called s c (.spawn id) ({ s with unborn := s.unborn.erase id }.pushReady (.task id))
  | yieldNow : Called s c .yieldNow (s.setPhase c (.schedule .toReady))
  | preempt : Called s c .preempt
      ((s.setCpu c fun cpu => { cpu with slice := timeSlice }).setPhase c (.schedule .toReady))
  | keepsOn : Called s c .preempt s
  | sleep {ticks ms : Nat} {task : TaskRef n} (hcur : (s.cpus c).current = some task) (hticks : ticks ≤ s.ticks) :
      Called s c (.sleep ticks ms)
        ({ s with wakeTick := Function.update s.wakeTick task (Sys.sleepUntil ticks ms) }.setPhase c (.schedule .toSleep))
  | exit : Called s c .exit (s.exit c)
  | take {w : Fin m} (hlock : (s.sems w).wq.lock = false) (hcount : 0 < (s.sems w).count) : Called s c (.semWait w)
      ((s.setResume (s.cpus c).stack .caller).setSem w { s.sems w with count := (s.sems w).count - 1 })
  | block {w : Fin m} (hlock : (s.sems w).wq.lock = false) (hcount : (s.sems w).count ≤ 0) : Called s c (.semWait w)
      (((s.setResume (s.cpus c).stack (.semWait w)).setSem w
        { s.sems w with wq := { (s.sems w).wq with lock := true } }).setPhase c (.schedule (.toWait w)))
  | semPost {w : Fin m} (hlock : (s.sems w).wq.lock = false) : Called s c (.semPost w)
      ((s.setSem w ⟨{ (s.sems w).wq with list := (s.sems w).wq.list.tail },
        Int.bmod ((s.sems w).count + 1) (2 ^ 64)⟩).setPhase c (.waking (s.sems w).wq.list.head?.toList))
  | goesOn {w : Fin m} : Called s c (.waitIf w false) s
  | waits {w : Fin m} : Called s c (.waitIf w true)
      ((s.setSem w { s.sems w with wq := { (s.sems w).wq with lock := true } }).setPhase c (.schedule (.toWait w)))
  | wakeOne {w : Fin m} : Called s c (.wakeOne w)
      ((s.setSem w { s.sems w with wq := { (s.sems w).wq with list := (s.sems w).wq.list.tail } }).setPhase c
        (.waking (s.sems w).wq.list.head?.toList))
  | wakeAll {w : Fin m} : Called s c (.wakeAll w)
      ((s.setSem w { s.sems w with wq := { (s.sems w).wq with list := [] } }).setPhase c (.waking (s.sems w).wq.list))
  | timerTick : Called s c .timerTick ({ s with sleepersLock := true }.setPhase c (.ticking s.ticks 0))
  | notReady : Called s c .timerTick s
  | reap : Called s c .reap s.reap

section Calls

variable {s s' : Sys n m C} {c : Fin n}

theorem semWait_cases {w : Fin m} (hs : s.semWait c w = some s') : Called s c (.semWait w) s' := by
  simp only [Sys.semWait] at hs
  split at hs
  · cases hs
  rename_i hlock
  have hfree : (s.sems w).wq.lock = false := by simpa using hlock
  split at hs
  · rename_i hcount
    cases hs
    exact .take hfree hcount
  · rename_i hcount
    cases hs
    exact .block hfree (by omega)

theorem callFresh_cases {k : Call m C} (hs : s.callFresh c k = some s') : Called s c k s' := by
  cases k with
  | init =>
    simp only [Sys.callFresh] at hs
    split at hs
    · rename_i hc
      cases hs
      exact .init hc.1
    · cases hs
  | initThisCpu =>
    simp only [Sys.callFresh] at hs
    split at hs
    · rename_i hc
      cases hs
      exact .initThisCpu hc.1
    · cases hs
  | taskNew ctx => cases hs; exact .taskNew ctx
  | spawn id =>
    simp only [Sys.callFresh, Sys.spawn] at hs
    split at hs
    · rename_i hid
      cases hs
      exact .spawn hid
    · cases hs
  | yieldNow => cases hs; exact .yieldNow
  | preempt =>
    cases hs
    unfold Sys.preempt
    split
    · exact .preempt
    · exact .keepsOn
  | sleep ticks ms =>
    simp only [Sys.callFresh, Sys.sleep] at hs
    split at hs
    · rename_i hticks
      split at hs
      · cases hs
      · rename_i hcur
        cases hs
        exact .sleep hcur hticks
    · cases hs
  | exit => cases hs; exact .exit
  | semWait w => exact semWait_cases hs
  | semPost w =>
    simp only [Sys.callFresh, Sys.semPost] at hs
    split at hs
    · cases hs
    · rename_i hlock
      cases hs
      exact .semPost (by simpa using hlock)
  | waitIf w b =>
    simp only [Sys.callFresh, Sys.waitIf] at hs
    split at hs
    · cases hs
    cases b
    · cases hs; exact .goesOn
    · cases hs; exact .waits
  | wakeOne w =>
    simp only [Sys.callFresh, Sys.wakeOne] at hs
    split at hs
    · cases hs
    · cases hs; exact .wakeOne
  | wakeAll w =>
    simp only [Sys.callFresh, Sys.wakeAll] at hs
    split at hs
    · cases hs
    · cases hs; exact .wakeAll
  | timerTick =>
    simp only [Sys.callFresh, Sys.timerTick] at hs
    split at hs
    · split at hs
      · cases hs
      · cases hs; exact .timerTick
    · cases hs; exact .notReady
  | reap => cases hs; exact .reap

/-- **What a call can do.** A task that resumed inside `Semaphore::wait` calls nothing else. -/
theorem call_cases {k : Call m C} (hs : s.call c k = some s') : (s.cpus c).phase = .run ∧ Called s c k s' ∧
    ∀ w, s.resume (s.cpus c).stack = .semWait w → k = .semWait w := by
  unfold Sys.call at hs
  split at hs
  · rename_i hph
    split at hs
    · rename_i hres
      exact ⟨hph, callFresh_cases hs, fun w hw => by rw [hres] at hw; cases hw⟩
    · rename_i hres
      split at hs
      · cases hs
        exact ⟨hph, .exit, fun w hw => by rw [hres] at hw; cases hw⟩
      · cases hs
    · rename_i w hres
      split at hs
      · split at hs
        · rename_i heq
          subst heq
          exact ⟨hph, semWait_cases hs, fun w' hw => by rw [hres] at hw; cases hw; rfl⟩
        · cases hs
      · cases hs
  · cases hs

/-- A call enters the scheduler with tasks taken off a queue, or with none. -/
theorem Inv.enter {s₀ : Sys n m C} (h : Inv s) (hk : Kept s s₀) (hph : (s.cpus c).phase = .run) {ph : Phase n m}
    (hne : ph ≠ .switching) (hcount : ∀ id, s₀.count id + (ids ph.hand).count id = s.count id) :
    Inv (s₀.setPhase c ph) := by
  refine h.setPhase hk (by simp [hph]) (by simp [hph]) hne fun id => ?_
  rw [hcount id, hph]
  simp [Phase.hand]

/-- Taking tasks off a wait queue. -/
theorem Inv.takeWaiters (h : Inv s) (hph : (s.cpus c).phase = .run) {w : Fin m} {sem : Semaphore n}
    {ts : List (TaskRef n)} (hsem : (s.sems w).wq.list = ts ++ sem.wq.list) :
    Inv ((s.setSem w sem).setPhase c (.waking ts)) := by
  refine h.enter (by exact ⟨rfl, rfl, rfl, rfl⟩) hph (by simp) fun id => ?_
  have hc := s.count_setSem id w sem
  rw [hsem, ids_append, List.count_append] at hc
  simp only [Phase.hand]
  omega

/-- A semaphore whose waiters stay. -/
theorem count_setSem_same {w : Fin m} {sem : Semaphore n} (hsem : sem.wq.list = (s.sems w).wq.list) (id : Nat) :
    (s.setSem w sem).count id = s.count id := by
  have hc := s.count_setSem id w sem
  rw [hsem] at hc
  omega

theorem head?_toList_append_tail {α : Type} (l : List α) : l = l.head?.toList ++ l.tail := by cases l <;> rfl

theorem initThisCpu_inv (h : Inv s) (hph : (s.cpus c).phase = .run) (hcur : (s.cpus c).current = none) :
    Inv (s.initThisCpu c) := by
  have hstack : (s.cpus c).stack = .idle c := by
    rcases (h.cpu c).current_stack (by simp [hph]) with hc | hc
    · rw [hcur] at hc; cases hc
    · exact hc.2
  refine h.of_setCpu ⟨rfl, rfl, rfl, rfl⟩ c rfl rfl ⟨?_, (h.cpu c).prev_eq, (h.cpu c).prev_stack, ?_⟩ fun id => ?_
  · intro t ht; exact (Option.some.inj ht).symm
  · intro _; exact Or.inl (congrArg some hstack.symm)
  · have hc := s.count_setCpu id c fun cpu => { cpu with idle := some (.idle c), current := some (.idle c) }
    simp only [Sys.cpuCount, hcur, Option.toList_none, Option.toList_some, ids_cons, ids_nil, TaskRef.own,
      List.append_nil] at hc
    exact Nat.add_right_cancel hc

theorem taskNew_inv (h : Inv s) (ctx : C) : Inv (s.taskNew ctx) := by
  have hnew : ∀ p, s.nextId ∉ s.bag p := by
    intro p hp
    have hle : (s.bag p).count s.nextId ≤ s.count s.nextId := count_le_total p
    have hpos := List.count_pos_iff.2 hp
    rw [h.count_eq, if_neg (by omega)] at hle
    omega
  have hstack : ∀ d, (s.cpus d).stack ≠ .task s.nextId := fun d hd =>
    (h.mem_of_stack hd).elim (hnew _) (hnew _)
  constructor
  · show 1 ≤ s.nextId + 1
    omega
  · intro id
    have hc := @Sys.count_change _ _ _ s id (s.taskNew ctx) .unborn
      fun r hr => by cases r <;> first | rfl | exact absurd rfl hr
    simp only [Sys.bag, Sys.taskNew, List.count_cons] at hc
    have he := h.count_eq id
    have hn : (s.taskNew ctx).nextId = s.nextId + 1 := rfl
    have hpos : 1 ≤ s.nextId := h.nextId_pos
    change (s.taskNew ctx).count id + _ = _ at hc
    rw [hn]
    by_cases hid : id = s.nextId
    · subst hid
      rw [if_neg (by omega)] at he
      rw [if_pos (by omega)]
      simp only [BEq.rfl, if_true] at hc
      omega
    · have hbeq : (s.nextId == id) = false := by simpa using Ne.symm hid
      simp only [hbeq, Bool.false_eq_true, if_false, Nat.add_zero] at hc
      have hiff : (1 ≤ id ∧ id < s.nextId + 1) ↔ (1 ≤ id ∧ id < s.nextId) := by omega
      rw [if_congr hiff rfl rfl, ← he]
      omega
  · exact h.cpu
  · constructor
    · intro id hid
      show Function.update s.ctx _ _ _ = Function.update s.live _ _ _
      by_cases he : id = s.nextId
      · subst he; rw [Function.update_self, Function.update_self]
      · rw [Function.update_of_ne (by simpa using he), Function.update_of_ne (by simpa using he)]
        exact h.saved.off_cpu id hid
    · intro d id hid
      have he : id ≠ s.nextId := by rintro rfl; exact hstack d hid
      show _ = Function.update s.live _ _ _
      rw [Function.update_of_ne (by simpa using he)]
      exact h.saved.on_cpu d id hid

theorem spawn_inv (h : Inv s) {id : Nat} (hid : id ∈ s.unborn) :
    Inv ({ s with unborn := s.unborn.erase id }.pushReady (.task id)) := by
  refine h.of_kept ⟨rfl, rfl, rfl, rfl⟩ fun k => ?_
  have hc := s.count_unborn k (s.unborn.erase id)
  have hp := (List.perm_cons_erase hid).count_eq k
  rw [Sys.count_pushReady]
  simp only [List.count_cons, TaskRef.own, List.count_nil] at hp ⊢
  omega

theorem reap_inv (h : Inv s) : Inv s.reap := by
  refine h.of_kept ⟨rfl, rfl, rfl, rfl⟩ fun id => ?_
  have h₁ := s.count_zombies id []
  have h₂ := ({ s with zombies := [] } : Sys n m C).count_reclaimed id (s.zombies ++ s.reclaimed)
  simp only [ids_append, List.count_append, ids_nil, List.count_nil] at h₁ h₂
  unfold Sys.reap
  omega

theorem compute_inv (h : Inv s) (c : Fin n) (regs : C) : Inv (s.compute c regs) := by
  have hother : ∀ d, d ≠ c → (s.compute c regs).cpus d = s.cpus d := fun d hd => Function.update_of_ne hd _ _
  have hself : (s.compute c regs).cpus c = { s.cpus c with regs := regs } := Function.update_self ..
  have hstack : ∀ d, ((s.compute c regs).cpus d).stack = (s.cpus d).stack := by
    intro d
    by_cases hd : d = c
    · subst hd; rw [hself]
    · rw [hother d hd]
  constructor
  · exact h.nextId_pos
  · intro id
    have hc := s.count_setCpu id c fun cpu => { cpu with regs := regs }
    simp only [Sys.cpuCount] at hc
    exact (Nat.add_right_cancel hc).trans (h.count_eq id)
  · intro d
    by_cases hd : d = c
    · subst hd; rw [hself]; exact ⟨(h.cpu d).idle_eq, (h.cpu d).prev_eq, (h.cpu d).prev_stack, (h.cpu d).current_stack⟩
    · rw [hother d hd]; exact h.cpu d
  · constructor
    · intro id hid
      have hne : TaskRef.task id ≠ (s.cpus c).stack := fun he => hid c ((hstack c).trans he.symm)
      show s.ctx _ = Function.update s.live _ _ _
      rw [Function.update_of_ne hne]
      exact h.saved.off_cpu id fun d => by rw [← hstack d]; exact hid d
    · intro d id hid
      rw [hstack] at hid
      show _ = Function.update s.live _ _ _
      by_cases hd : d = c
      · subst hd; rw [hself, hid, Function.update_self]
      · have hne : TaskRef.task id ≠ (s.cpus c).stack := fun he => hd (h.stack_inj hid he.symm)
        rw [Function.update_of_ne hne, hother d hd]
        exact h.saved.on_cpu d id hid

theorem preempt_inv (h : Inv s) (hph : (s.cpus c).phase = .run) :
    Inv ((s.setCpu c fun cpu => { cpu with slice := timeSlice }).setPhase c (.schedule .toReady)) := by
  have hslice : Inv (s.setCpu c fun cpu => { cpu with slice := timeSlice }) := by
    refine h.of_setCpu ⟨rfl, rfl, rfl, rfl⟩ c rfl rfl
      ((h.cpu c).phase (by simp [hph]) (by simp [hph]) (by simp [hph]) _) fun id => ?_
    have hc := s.count_setCpu id c fun cpu => { cpu with slice := timeSlice }
    simp only [Sys.cpuCount] at hc
    exact Nat.add_right_cancel hc
  exact hslice.enter ⟨rfl, rfl, rfl, rfl⟩ (by simp [hph]) (by simp) fun _ => rfl

theorem call_inv (h : Inv s) {k : Call m C} (hs : s.call c k = some s') : Inv s' := by
  obtain ⟨hph, hcalled, -⟩ := call_cases hs
  cases hcalled with
  | init hcur => exact (initThisCpu_inv h hph hcur).of_kept ⟨rfl, rfl, rfl, rfl⟩ fun _ => rfl
  | initThisCpu hcur => exact initThisCpu_inv h hph hcur
  | taskNew ctx => exact taskNew_inv h ctx
  | spawn hid => exact spawn_inv h hid
  | preempt => exact preempt_inv h hph
  | take => exact h.of_kept (by exact ⟨rfl, rfl, rfl, rfl⟩) fun id => count_setSem_same (by rfl) id
  | block | waits =>
    refine h.enter (by exact ⟨rfl, rfl, rfl, rfl⟩) hph (by simp) fun id => ?_
    exact count_setSem_same (by rfl) id
  | semPost | wakeOne => exact h.takeWaiters hph (head?_toList_append_tail _)
  | wakeAll => exact h.takeWaiters hph (List.append_nil _).symm
  | reap => exact reap_inv h
  | keepsOn | goesOn | notReady => exact h
  | yieldNow | sleep | exit | timerTick => exact h.enter (by exact ⟨rfl, rfl, rfl, rfl⟩) hph (by simp) fun _ => rfl

/-- **One step of one CPU** keeps the invariant. -/
theorem step_inv (h : Inv s) {e : Event m C} (hs : s.step c e = some s') : Inv s' := by
  cases e with
  | call k => exact call_inv h hs
  | advance => exact advance_inv h hs
  | compute regs => cases hs; exact compute_inv h c regs
  | clock => cases hs; exact h.of_kept ⟨rfl, rfl, rfl, rfl⟩ fun _ => rfl

end Calls

/-! ## Runs -/

theorem boot_inv (counts : Fin m → Int) (regs : Fin n → C) (zero : C) : Inv (Sys.boot counts regs zero) where
  nextId_pos := Nat.le_refl 1
  count_eq := fun id => by
    have hbag : ∀ p, (Sys.boot counts regs zero).bag p = [] := fun p => by cases p <;> rfl
    rw [if_neg (by simp only [Sys.boot]; omega)]
    simp [Sys.count, total, hbag]
  cpu := fun c => ⟨nofun, fun _ _ => rfl, nofun, fun _ => Or.inr ⟨rfl, rfl⟩⟩
  saved := ⟨fun _ _ => rfl, nofun⟩

theorem run_inv : ∀ (es : List (Fin n × Event m C)) {s s' : Sys n m C}, Inv s → s.run es = some s' → Inv s'
  | [], _, _, h, hs => by cases hs; exact h
  | (c, e) :: es, s, s', h, hs => by
    obtain ⟨s₁, hs₁, hs₂⟩ := Option.bind_eq_some_iff.1 hs
    exact run_inv es (step_inv h hs₁) hs₂

/-- A task was spawned and its memory was not reclaimed. -/
def Sys.Spawned (s : Sys n m C) (id : Nat) : Prop :=
  1 ≤ id ∧ id < s.nextId ∧ id ∉ s.unborn ∧ .task id ∉ s.reclaimed

/-- The scheduler's code on no CPU is between taking a task out of one place and putting it into another. -/
def Sys.HandsEmpty (s : Sys n m C) : Prop := ∀ c, (s.cpus c).phase.hand = []

/-- A task that exists is in exactly one place. -/
theorem Inv.exists_place {s : Sys n m C} (h : Inv s) {id : Nat} (h₁ : 1 ≤ id) (h₂ : id < s.nextId) :
    ∃ p, (s.bag p).count id = 1 ∧ ∀ q, id ∈ s.bag q → q = p := by
  have htotal : s.count id = 1 := by rw [h.count_eq, if_pos ⟨h₁, h₂⟩]
  have hpos : 0 < total s.bag id := by unfold Sys.count at htotal; omega
  obtain ⟨p, hp⟩ := exists_mem_of_total_pos hpos
  refine ⟨p, Nat.le_antisymm ?_ (List.count_pos_iff.2 hp), fun q hq => h.place_unique hq hp⟩
  exact htotal ▸ count_le_total p

/-- **Task conservation**: after every interleaving of the CPUs' critical sections a spawned task has exactly one copy
over all places, and its place is a CPU's slot or a queue unless a CPU is moving it between two of them. A task in a
queue, or on its way to or from one, has its registers saved and runs on no CPU. -/
theorem task_conservation (counts : Fin m → Int) (regs : Fin n → C) (zero : C) (es : List (Fin n × Event m C))
    {s : Sys n m C} (hs : (Sys.boot counts regs zero).run es = some s) {id : Nat} (hid : s.Spawned id) :
    (∃ p, (s.bag p).count id = 1 ∧ (p.IsSlotOrQueue ∨ ∃ c, p = .hand c) ∧ ∀ q, id ∈ s.bag q → q = p) ∧
    (s.HandsEmpty → ∃ p, (s.bag p).count id = 1 ∧ p.IsSlotOrQueue ∧ ∀ q, id ∈ s.bag q → q = p) ∧
    (∀ p, id ∈ s.bag p → p.IsQueue ∨ (∃ c, p = .hand c) →
      s.ctx (.task id) = s.live (.task id) ∧ ∀ c, (s.cpus c).stack ≠ .task id) := by
  have h := run_inv es (boot_inv counts regs zero) hs
  obtain ⟨h₁, h₂, hunborn, hrecl⟩ := hid
  obtain ⟨p, hcount, huniq⟩ := h.exists_place h₁ h₂
  have hmem : id ∈ s.bag p := List.count_pos_iff.1 (by omega)
  have hplace : p.IsSlotOrQueue ∨ ∃ c, p = .hand c := by
    cases p with
    | hand c => exact Or.inr ⟨c, rfl⟩
    | unborn => exact absurd hmem hunborn
    | reclaimed => exact absurd (mem_ids.1 hmem) hrecl
    | _ => exact Or.inl trivial
  refine ⟨⟨p, hcount, hplace, huniq⟩, ?_, ?_⟩
  · intro hempty
    refine ⟨p, hcount, hplace.resolve_right ?_, huniq⟩
    rintro ⟨c, rfl⟩
    simp [Sys.bag, hempty c] at hmem
  · intro q hq hkind
    have hoff : ∀ c, (s.cpus c).stack ≠ .task id := by
      apply h.not_stack hq
      · rintro c rfl
        rcases hkind with hk | ⟨d, hd⟩
        · exact hk
        · cases hd
      · rintro c rfl
        rcases hkind with hk | ⟨d, hd⟩
        · exact hk
        · cases hd
    exact ⟨h.saved.off_cpu id hoff, hoff⟩

local instance post_cpus : NeZero 2 := ⟨by decide⟩

local instance post_semaphores : NeZero 1 := ⟨by decide⟩

/-- Task 1 is spawned, and CPU 0 yields. -/
def yieldRun : List (Fin 2 × Event 1 Nat) :=
  [(0, .call .init), (1, .call .initThisCpu), (0, .call (.taskNew 7)), (0, .call (.spawn 1)), (0, .call .yieldNow)]

/-- Task 1 blocks on a semaphore on CPU 0 and CPU 1 posts it. -/
def postRun : List (Fin 2 × Event 1 Nat) :=
  yieldRun ++
  (List.replicate 5 (0, .advance) : List (Fin 2 × Event 1 Nat)) ++
  ([(0, .compute 8), (0, .call (.semWait 0))] : List (Fin 2 × Event 1 Nat)) ++
  (List.replicate 5 (0, .advance) : List (Fin 2 × Event 1 Nat)) ++
  ([(1, .call (.semPost 0)), (1, .advance), (1, .advance)] : List (Fin 2 × Event 1 Nat))

theorem task_conservation_postRun :
    ∃ s, (Sys.boot (fun _ => 0) (fun _ => 0) 0).run postRun = some s ∧ s.readyQueue = [.task 1] ∧
      s.ctx (.task 1) = s.live (.task 1) ∧ s.live (.task 1) = 8 := by
  have hrun : ((Sys.boot (fun _ => 0) (fun _ => 0) 0).run postRun).map
      (fun s => (s.readyQueue, s.nextId, s.unborn, s.reclaimed, s.live (.task 1))) =
      some ([.task 1], 2, [], [], 8) := by decide
  obtain ⟨s, hs, hv⟩ := Option.map_eq_some_iff.1 hrun
  simp only [Prod.mk.injEq] at hv
  obtain ⟨hq, hnext, hun, hrec, hlive⟩ := hv
  refine ⟨s, hs, hq, ?_, hlive⟩
  have hcons := task_conservation _ _ _ postRun hs ⟨Nat.le_refl 1, by omega, by simp [hun], by simp [hrec]⟩
  exact (hcons.2.2 .ready (by simp [Sys.bag, hq, TaskRef.own]) (Or.inl trivial)).1

/-- Between the section of `pick_next` and the one that makes the task current, a task is in no slot and in no queue. -/
theorem task_in_hand :
    ∃ s, (Sys.boot (fun _ => 0) (fun _ => 0) 0).run (yieldRun ++ [(0, .advance)]) = some s ∧ s.Spawned 1 ∧
      ∀ p, p.IsSlotOrQueue → 1 ∉ s.bag p := by
  have hrun : ((Sys.boot (fun _ => 0) (fun _ => 0) 0).run (yieldRun ++ [(0, .advance)])).map
      (fun s => (s.nextId, s.unborn, s.reclaimed, s.bag (.hand 0))) = some (2, [], [], [1]) := by decide
  obtain ⟨s, hs, hv⟩ := Option.map_eq_some_iff.1 hrun
  simp only [Prod.mk.injEq] at hv
  obtain ⟨hnext, hun, hrec, hhand⟩ := hv
  have h := run_inv _ (boot_inv _ _ _) hs
  refine ⟨s, hs, ⟨Nat.le_refl 1, by omega, by simp [hun], by simp [hrec]⟩, fun p hp hmem => ?_⟩
  obtain rfl := h.place_unique hmem (show 1 ∈ s.bag (.hand 0) by simp [hhand])
  exact hp

end

end Koros.Sched
