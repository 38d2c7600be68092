import Koros.Sched.Conserve
import Mathlib.Algebra.Ring.Nat

/-!
# Semaphores and mutexes

`Semaphore::wait` takes a unit under the queue's lock, or blocks with the lock held: another task, running after the
context switch, puts the blocked one into the queue and releases the lock (`applyTransition`). A woken task counts as
waiting until it has read the count again, and a new waiter can take the unit before it does.

- what one step of one CPU does to a semaphore (`step_sem`): nothing (`Quiet`), a post, a unit taken, a task that
  decides to block, a task put into the queue;
- the count is the initial one plus the posts minus the completed waits (`count_run`), and never drops below the
  smaller of the initial one and zero;
- the invariant `SemInv`: the lock is held by the one CPU that is parking a task, over a count with nothing left, and
  a queue with a task in it means that every unit has a woken task on its way to it (`step_semInv`);
- **`semaphore_correct`**, with mutual exclusion for the mutexes built on a semaphore of count one.
-/
set_option autoImplicit false

namespace Koros.Sched

open Koros.Lib

section

variable {n m : Nat} {C : Type}

/-! ## Tasks on their way into a queue and out of it -/

/-- The task that a CPU is taking into a wait queue, from the decision to block to the push. -/
def PerCpu.parking (cpu : PerCpu n m C) : Option (TaskRef n × Fin m) :=
  match cpu.phase with
  | .schedule (.toWait w) => some (cpu.stack, w)
  | .picked _ (.toWait w) => some (cpu.stack, w)
  | .switching | .finish =>
    match cpu.prev with
    | some (t, .toWait w) => some (t, w)
    | _ => none
  | .transition t (.toWait w) => some (t, w)
  | _ => none

namespace Sys

/-- Tasks in `Semaphore::wait` that were woken and have not read the count again. -/
def woken (s : Sys n m C) (w : Fin m) : Finset Nat :=
  (Finset.range s.nextId).filter fun id =>
    s.resume (.task id) = .semWait w ∧ .task id ∉ (s.sems w).wq.list ∧ ∀ c, (s.cpus c).parking ≠ some (.task id, w)

/-! ## What a run did to a semaphore -/

end Sys

/-- A call of `Semaphore::post`. -/
def Event.isPost (w : Fin m) : Event m C → Bool
  | .call (.semPost w') => w = w'
  | _ => false

/-- A round of `Semaphore::wait`. -/
def Event.isWait (w : Fin m) : Event m C → Bool
  | .call (.semWait w') => w = w'
  | _ => false

/-- A call that uses the queue without the count: never one of a semaphore, whose queue is private. -/
def Event.isPlain (w : Fin m) : Event m C → Bool
  | .call (.waitIf w' _) => w = w'
  | .call (.wakeOne w') => w = w'
  | .call (.wakeAll w') => w = w'
  | _ => false

/-- The posts of a run. -/
def posts (w : Fin m) (es : List (Fin n × Event m C)) : Nat := es.countP fun ce => ce.2.isPost w

namespace Sys

/-- The step is the one in which a call of `Semaphore::wait` takes a unit and returns. -/
def completes (s : Sys n m C) (w : Fin m) (e : Event m C) : Bool := e.isWait w && 0 < (s.sems w).count

/-- The completed waits of a run from `s`. -/
def waits (w : Fin m) : Sys n m C → List (Fin n × Event m C) → Nat
  | _, [] => 0
  | s, (c, e) :: es =>
    (s.completes w e).toNat +
      match s.step c e with
      | some s' => s'.waits w es
      | none => 0

/-- Only spawned tasks block in `Semaphore::wait`: the idle task of a CPU must stay runnable. -/
def taskContext (w : Fin m) : Sys n m C → List (Fin n × Event m C) → Bool
  | _, [] => true
  | s, (c, e) :: es =>
    !(e.isWait w && !s.completes w e && (s.cpus c).stack.isIdle) &&
      match s.step c e with
      | some s' => s'.taskContext w es
      | none => true

/-- The tasks between `lock` and `unlock` after one step. An unlock ends the section of the task that makes it, or,
when the guard was handed to another task, that of the task that locked. -/
def holdersStep (s : Sys n m C) (w : Fin m) (c : Fin n) (e : Event m C) (held : List (TaskRef n)) : List (TaskRef n) :=
  if s.completes w e then (s.cpus c).stack :: held
  else if e.isPost w then if (s.cpus c).stack ∈ held then held.erase (s.cpus c).stack else held.tail
  else held

/-- The tasks between `lock` and `unlock` after a run from `s`, `held` before it. -/
def holders (w : Fin m) : Sys n m C → List (TaskRef n) → List (Fin n × Event m C) → List (TaskRef n)
  | _, held, [] => held
  | s, held, (c, e) :: es =>
    match s.step c e with
    | some s' => s'.holders w (s.holdersStep w c e held) es
    | none => held

/-- Every `unlock` of the run follows its `lock`, as the drop of a guard does. -/
def mutexUse (w : Fin m) : Sys n m C → List (TaskRef n) → List (Fin n × Event m C) → Bool
  | _, _, [] => true
  | s, held, (c, e) :: es =>
    !(e.isPost w && held.isEmpty) &&
      match s.step c e with
      | some s' => s'.mutexUse w (s.holdersStep w c e held) es
      | none => true

theorem taskContext_cons {w : Fin m} {s s' : Sys n m C} {c : Fin n} {e : Event m C} {es : List (Fin n × Event m C)}
    (hs : s.step c e = some s') (h : s.taskContext w ((c, e) :: es)) :
    (e.isWait w → ¬ s.completes w e → ¬ (s.cpus c).stack.isIdle) ∧ s'.taskContext w es := by
  rw [taskContext, hs, Bool.and_eq_true] at h
  refine ⟨fun h₁ h₂ h₃ => ?_, h.2⟩
  simp [h₁, h₂, h₃] at h

theorem mutexUse_cons {w : Fin m} {s s' : Sys n m C} {c : Fin n} {e : Event m C} {held : List (TaskRef n)}
    {es : List (Fin n × Event m C)} (hs : s.step c e = some s') (h : s.mutexUse w held ((c, e) :: es)) :
    (e.isPost w → held ≠ []) ∧ s'.mutexUse w (s.holdersStep w c e held) es := by
  rw [mutexUse, hs, Bool.and_eq_true] at h
  refine ⟨fun h₁ h₂ => ?_, h.2⟩
  simp [h₁, h₂] at h

end Sys

/-! ## What one step does to a semaphore -/

/-- No task starts or ends being parked on `w`. -/
def ParkSame (w : Fin m) (s s' : Sys n m C) : Prop :=
  ∀ d t, (s'.cpus d).parking = some (t, w) ↔ (s.cpus d).parking = some (t, w)

/-- Nothing happens to semaphore `w`. -/
structure Quiet (w : Fin m) (s s' : Sys n m C) : Prop where
  sems : s'.sems w = s.sems w
  parking : ParkSame w s s'
  resume : ∀ id < s.nextId, s.resume (.task id) = .semWait w → s'.resume (.task id) = .semWait w
  nextId : s.nextId ≤ s'.nextId

/-- What a step of CPU `c` can do to semaphore `w`. -/
inductive SemStep (w : Fin m) (s : Sys n m C) (c : Fin n) : Event m C → Sys n m C → Prop where
  | quiet {e : Event m C} {s' : Sys n m C} (hwait : e.isWait w = false) (hpost : e.isPost w = false)
      (h : Quiet w s s') : SemStep w s c e s'
  | post {s' : Sys n m C} (hfree : (s.sems w).wq.lock = false)
      (hsem : s'.sems w = ⟨⟨false, (s.sems w).wq.list.tail⟩, Int.bmod ((s.sems w).count + 1) (2 ^ 64)⟩)
      (hpark : ParkSame w s s') (hres : s'.resume = s.resume) (hid : s'.nextId = s.nextId) :
      SemStep w s c (.call (.semPost w)) s'
  | take {s' : Sys n m C} (hfree : (s.sems w).wq.lock = false) (hcount : 0 < (s.sems w).count)
      (hsem : s'.sems w = ⟨(s.sems w).wq, (s.sems w).count - 1⟩)
      (hpark : ParkSame w s s') (hres : s'.resume = Function.update s.resume (s.cpus c).stack .caller)
      (hid : s'.nextId = s.nextId) : SemStep w s c (.call (.semWait w)) s'
  | block {s' : Sys n m C} (hfree : (s.sems w).wq.lock = false) (hcount : (s.sems w).count ≤ 0)
      (hsem : s'.sems w = ⟨⟨true, (s.sems w).wq.list⟩, (s.sems w).count⟩)
      (hpark : ∀ d t, (s'.cpus d).parking = some (t, w) ↔
        d = c ∧ t = (s.cpus c).stack ∨ d ≠ c ∧ (s.cpus d).parking = some (t, w))
      (hres : s'.resume = Function.update s.resume (s.cpus c).stack (.semWait w)) (hid : s'.nextId = s.nextId) :
      SemStep w s c (.call (.semWait w)) s'
  | park {s' : Sys n m C} (t : TaskRef n) (ht : (s.cpus c).parking = some (t, w))
      (hsem : s'.sems w = ⟨⟨false, (s.sems w).wq.list ++ [t]⟩, (s.sems w).count⟩)
      (hpark : ∀ d t', (s'.cpus d).parking = some (t', w) ↔ d ≠ c ∧ (s.cpus d).parking = some (t', w))
      (hres : s'.resume = s.resume) (hid : s'.nextId = s.nextId) : SemStep w s c .advance s'

section Steps

variable {w : Fin m} {s s' s₀ : Sys n m C} {c : Fin n}

theorem ParkSame.of_cpus (h : s'.cpus = s.cpus) : ParkSame w s s' := fun d t => by rw [h]

theorem ParkSame.setCpu {f : PerCpu n m C → PerCpu n m C} (hcpus : s₀.cpus = s.cpus)
    (h : ∀ t, (f (s.cpus c)).parking = some (t, w) ↔ (s.cpus c).parking = some (t, w)) :
    ParkSame w s (s₀.setCpu c f) := by
  intro d t
  rw [Sys.cpus_setCpu, hcpus]
  by_cases hd : d = c
  · subst hd
    rw [Function.update_self]
    exact h t
  · rw [Function.update_of_ne hd]

/-- A step that changes no semaphore and no place to resume at. -/
theorem Quiet.of_parking (hsems : s'.sems = s.sems) (hres : s'.resume = s.resume) (hid : s'.nextId = s.nextId)
    (hpark : ParkSame w s s') : Quiet w s s' :=
  ⟨by rw [hsems], hpark, fun id _ h => by rw [hres]; exact h, by rw [hid]⟩

/-- A CPU that goes to another phase parks the same task on `w`, or none in both. -/
theorem Quiet.setPhase {ph : Phase n m} (hcpus : s₀.cpus = s.cpus) (hsems : s₀.sems w = s.sems w)
    (hres : s₀.resume = s.resume) (hid : s₀.nextId = s.nextId)
    (h : ∀ t, ({ s.cpus c with phase := ph } : PerCpu n m C).parking = some (t, w) ↔
      (s.cpus c).parking = some (t, w)) : Quiet w s (s₀.setPhase c ph) :=
  ⟨hsems, ParkSame.setCpu hcpus h, fun id _ h => (congrFun hres (.task id)).trans h, Nat.le_of_eq hid.symm⟩

theorem advance_sem (h : Inv s) (hs : s.advance c = some s') : SemStep w s c .advance s' := by
  cases advance_cases hs with
  | @picks a t rest hph hq =>
    -- the task being parked is the one the CPU still runs on
    exact .quiet rfl rfl (.setPhase (by rfl) rfl rfl rfl fun t => by cases a <;> simp [PerCpu.parking, hph])
  | @idles a t hph hidle =>
    exact .quiet rfl rfl (.setPhase rfl rfl rfl rfl fun t => by cases a <;> simp [PerCpu.parking, hph])
  | @installs a next prev hph hcur =>
    have hstack := stack_of_picked h hph hcur
    refine .quiet rfl rfl (.of_parking rfl rfl rfl (ParkSame.setCpu (by rfl) fun t => ?_))
    cases a <;> simp [PerCpu.parking, hph, hstack]
  | switches hph hprev hcur =>
    exact .quiet rfl rfl (.of_parking rfl rfl rfl (ParkSame.setCpu (by rfl) fun t => by simp [PerCpu.parking, hph]))
  | @takesPrev a prev hph hprev =>
    refine .quiet rfl rfl (.of_parking rfl rfl rfl (ParkSame.setCpu rfl fun t => ?_))
    cases a <;> simp [PerCpu.parking, hph, hprev]
  | noPrev hph hprev => exact .quiet rfl rfl (.setPhase rfl rfl rfl rfl fun t => by simp [PerCpu.parking, hph, hprev])
  | @parks prev w' hph =>
    have hparks : (s.cpus c).parking = some (prev, w') := by simp [PerCpu.parking, hph]
    by_cases hw : w' = w
    · subst hw
      refine .park prev hparks ?_ ?_ rfl rfl
      · show Function.update s.sems w' _ w' = _
        rw [Function.update_self]
      · intro d t'
        show (Function.update s.cpus c _ d).parking = _ ↔ _
        by_cases hd : d = c
        · subst hd
          rw [Function.update_self]
          simp [PerCpu.parking]
        · rw [Function.update_of_ne hd]
          simp [hd]
    · refine .quiet rfl rfl (.setPhase (by rfl) ?_ rfl rfl fun t => by simp [PerCpu.parking, hph, hw])
      exact Function.update_of_ne (Ne.symm hw) _ _
  | ticked hph =>
    exact .quiet rfl rfl (.of_parking rfl rfl rfl (ParkSame.setCpu (by rfl) fun t => by simp [PerCpu.parking, hph]))
  | staysOn hph | restsIdle hph | readies hph | sleeps hph | dies hph | woke hph | wakes hph | due hph | notDue hph
  | tickWakes hph =>
    exact .quiet rfl rfl (.setPhase (by rfl) rfl rfl rfl fun t => by simp [PerCpu.parking, hph])

/-! ### The calls -/

theorem parking_run {cpu : PerCpu n m C} (hph : cpu.phase = .run) : cpu.parking = none := by
  simp [PerCpu.parking, hph]

/-- A call that enters the scheduler without a task to park on `w`. -/
theorem ParkSame.enter (hph : (s.cpus c).phase = .run) (hcpus : s₀.cpus = s.cpus) {ph : Phase n m}
    (h : ∀ t, ({ s.cpus c with phase := ph } : PerCpu n m C).parking ≠ some (t, w)) :
    ParkSame w s (s₀.setPhase c ph) :=
  ParkSame.setCpu hcpus fun t => by simp [parking_run hph, h t]

/-- What a round of another semaphore's `wait` notes. -/
theorem resume_other (hres : s.resume (s.cpus c).stack ≠ .semWait w) (r : Resume m) (id : Nat)
    (hid : s.resume (.task id) = .semWait w) : Function.update s.resume (s.cpus c).stack r (.task id) = .semWait w := by
  rw [Function.update_of_ne]
  · exact hid
  · rintro heq
    exact hres (heq ▸ hid)

/-- A wait or a wake-up on another queue. -/
theorem Quiet.setSem_other {w' : Fin m} (hw : w' ≠ w) (hph : (s.cpus c).phase = .run) {sem : Semaphore n}
    {ph : Phase n m} (hpark : ∀ t, ({ s.cpus c with phase := ph } : PerCpu n m C).parking ≠ some (t, w)) :
    Quiet w s ((s.setSem w' sem).setPhase c ph) :=
  ⟨Function.update_of_ne (Ne.symm hw) _ _, ParkSame.enter hph rfl hpark, fun _ _ h => h, Nat.le_refl _⟩

theorem taskNew_quiet (ctx : C) : Quiet w s (s.taskNew ctx) := by
  refine ⟨rfl, .of_cpus rfl, fun id hid h => ?_, Nat.le_succ _⟩
  show Function.update s.resume _ _ _ = _
  rw [Function.update_of_ne]
  · exact h
  · intro heq
    cases heq
    exact Nat.lt_irrefl _ hid

theorem call_sem {k : Call m C} (hplain : (Event.call k).isPlain w = false) (hs : s.call c k = some s') :
    SemStep w s c (.call k) s' := by
  obtain ⟨hph, hcalled, hloop⟩ := call_cases hs
  have hinit : ParkSame w s (s.initThisCpu c) :=
    ParkSame.setCpu rfl fun t => by rw [parking_run hph, parking_run (by exact hph)]
  cases hcalled with
  | init | initThisCpu => exact .quiet rfl rfl (.of_parking rfl rfl rfl hinit)
  | taskNew ctx => exact .quiet rfl rfl (taskNew_quiet ctx)
  | preempt =>
    refine .quiet rfl rfl (.of_parking rfl rfl rfl ?_)
    intro d t
    simp only [Sys.setPhase, Sys.cpus_setCpu]
    by_cases hd : d = c
    · subst hd
      simp [PerCpu.parking, hph]
    · simp [Function.update_of_ne hd]
  | yieldNow | sleep | timerTick =>
    exact .quiet rfl rfl (.of_parking rfl rfl rfl (ParkSame.enter hph (by rfl) (by simp [PerCpu.parking])))
  | exit =>
    have hres : s.resume (s.cpus c).stack ≠ .semWait w := fun h => by cases hloop w h
    exact .quiet rfl rfl ⟨rfl, ParkSame.enter hph (by rfl) (by simp [PerCpu.parking]),
      fun id _ h => resume_other hres _ id h, Nat.le_refl _⟩
  | @take w' hfree hcount =>
    by_cases hw : w' = w
    · subst hw
      exact .take hfree hcount (Function.update_self ..) (.of_cpus rfl) rfl rfl
    · have hres : s.resume (s.cpus c).stack ≠ .semWait w := fun h => hw (by cases hloop w h; rfl)
      exact .quiet (by simpa [Event.isWait] using Ne.symm hw) rfl ⟨Function.update_of_ne (Ne.symm hw) _ _, .of_cpus rfl,
        fun id _ h => resume_other hres _ id h, Nat.le_refl _⟩
  | @block w' hfree hcount =>
    by_cases hw : w' = w
    · subst hw
      refine .block hfree hcount (Function.update_self ..) (fun d t => ?_) rfl rfl
      show (Function.update s.cpus c _ d).parking = _ ↔ _
      by_cases hd : d = c
      · subst hd
        rw [Function.update_self]
        show some ((s.cpus d).stack, w') = some (t, w') ↔ _
        simp [eq_comm]
      · rw [Function.update_of_ne hd]
        simp [hd]
    · have hres : s.resume (s.cpus c).stack ≠ .semWait w := fun h => hw (by cases hloop w h; rfl)
      exact .quiet (by simpa [Event.isWait] using Ne.symm hw) rfl ⟨Function.update_of_ne (Ne.symm hw) _ _,
        ParkSame.enter hph (by rfl) fun t => by simp [PerCpu.parking, hw], fun id _ h => resume_other hres _ id h,
        Nat.le_refl _⟩
  | @semPost w' hfree =>
    by_cases hw : w' = w
    · subst hw
      refine .post hfree ?_ (ParkSame.enter hph rfl (by simp [PerCpu.parking])) rfl rfl
      rw [← hfree]
      exact Function.update_self ..
    · exact .quiet rfl (by simpa [Event.isPost] using Ne.symm hw) (.setSem_other hw hph (by simp [PerCpu.parking]))
  | waits | wakeOne | wakeAll =>
    have hw := hplain
    simp only [Event.isPlain, decide_eq_false_iff_not] at hw
    exact .quiet rfl rfl (.setSem_other (Ne.symm hw) hph (by simp [PerCpu.parking, Ne.symm hw]))
  | spawn | keepsOn | goesOn | notReady | reap => exact .quiet rfl rfl (.of_parking rfl rfl rfl (.of_cpus rfl))

/-- **What one step of one CPU can do to a semaphore.** -/
theorem step_sem (h : Inv s) {e : Event m C} (hplain : e.isPlain w = false) (hs : s.step c e = some s') :
    SemStep w s c e s' := by
  cases e with
  | call k => exact call_sem hplain hs
  | advance => exact advance_sem h hs
  | compute regs =>
    cases hs
    refine .quiet rfl rfl (.of_parking rfl rfl rfl ?_)
    exact ParkSame.setCpu (f := fun cpu => { cpu with regs := regs }) rfl fun t => Iff.rfl
  | clock => cases hs; exact .quiet rfl rfl (.of_parking rfl rfl rfl (.of_cpus rfl))

end Steps

/-! ## The count -/

section Count

variable {w : Fin m} {s s' : Sys n m C} {c : Fin n} {e : Event m C}

/-- The change of the count in one step, as long as it stays an `isize`. -/
theorem SemStep.count_eq (h : SemStep w s c e s') (hlo : -2 ^ 63 ≤ (s.sems w).count)
    (hhi : (s.sems w).count + (e.isPost w).toNat < 2 ^ 63) :
    (s'.sems w).count = (s.sems w).count + (e.isPost w).toNat - (s.completes w e).toNat := by
  cases h with
  | quiet hwait hpost h => simp [h.sems, Sys.completes, hwait, hpost]
  | post _ hsem =>
    replace hhi : (s.sems w).count + 1 < 2 ^ 63 := by simpa [Event.isPost] using hhi
    have hmod : Int.bmod ((s.sems w).count + 1) (2 ^ 64) = (s.sems w).count + 1 := by
      apply Int.bmod_eq_of_le <;> omega
    rw [hsem, hmod]
    simp [Event.isPost, Sys.completes, Event.isWait]
  | take _ hcount hsem => simp [hsem, Event.isPost, Sys.completes, Event.isWait, hcount]
  | block _ hcount hsem => simp [hsem, Event.isPost, Sys.completes, Event.isWait, Int.not_lt.2 hcount]
  | park t _ hsem => simp [hsem, Event.isPost, Sys.completes, Event.isWait]

theorem Sys.count_pos_of_completes (h : s.completes w e = true) : 0 < (s.sems w).count := by
  simp only [Sys.completes, Bool.and_eq_true, decide_eq_true_eq] at h
  exact h.2

/-- A wait only takes a unit that is there. -/
theorem SemStep.le_count (h : SemStep w s c e s') (hlo : -2 ^ 63 ≤ (s.sems w).count)
    (hhi : (s.sems w).count + (e.isPost w).toNat < 2 ^ 63) {lo : Int} (hlo₀ : lo ≤ 0) (hle : lo ≤ (s.sems w).count) :
    lo ≤ (s'.sems w).count := by
  rw [h.count_eq hlo hhi]
  cases hc : s.completes w e with
  | true =>
    have hpos := Sys.count_pos_of_completes hc
    simp only [Bool.toNat_true]
    omega
  | false =>
    simp only [Bool.toNat_false]
    omega

end Count

theorem posts_cons (w : Fin m) (c : Fin n) (e : Event m C) (es : List (Fin n × Event m C)) :
    posts w ((c, e) :: es) = posts w es + (e.isPost w).toNat := by
  unfold posts
  rw [List.countP_cons]
  cases e.isPost w <;> rfl

theorem Sys.waits_cons {w : Fin m} {s s' : Sys n m C} {c : Fin n} {e : Event m C} (es : List (Fin n × Event m C))
    (hs : s.step c e = some s') : s.waits w ((c, e) :: es) = (s.completes w e).toNat + s'.waits w es := by
  rw [Sys.waits, hs]

/-- **The count of a run**: units put in minus units taken, and never below zero by a wait. -/
theorem count_run {w : Fin m} {lo : Int} (hlo : -2 ^ 63 ≤ lo) (hlo₀ : lo ≤ 0) :
    ∀ (es : List (Fin n × Event m C)) {s s' : Sys n m C}, Inv s → s.run es = some s' →
      (∀ ce ∈ es, ce.2.isPlain w = false) → lo ≤ (s.sems w).count → (s.sems w).count + posts w es < 2 ^ 63 →
      (s'.sems w).count = (s.sems w).count + posts w es - s.waits w es ∧ lo ≤ (s'.sems w).count
  | [], s, s', _, hs, _, hle, _ => by
    cases hs
    exact ⟨by simp [posts, Sys.waits], hle⟩
  | (c, e) :: es, s, s', h, hs, hplain, hle, hhi => by
    obtain ⟨s₁, hs₁, hs₂⟩ := Option.bind_eq_some_iff.1 hs
    have hstep : SemStep w s c e s₁ := step_sem h (hplain _ (List.mem_cons_self ..)) hs₁
    rw [posts_cons] at hhi ⊢
    rw [Sys.waits_cons es hs₁]
    push_cast at hhi ⊢
    have hcount := hstep.count_eq (by omega) (by omega)
    have hle₁ := hstep.le_count (by omega) (by omega) hlo₀ hle
    obtain ⟨ih, ihle⟩ := count_run hlo hlo₀ es (step_inv h hs₁) hs₂
      (fun ce hce => hplain ce (List.mem_cons_of_mem _ hce)) hle₁ (by omega)
    exact ⟨by omega, ihle⟩

/-- Once a wait has completed the count is not negative. -/
theorem count_nonneg_of_waits {w : Fin m} :
    ∀ (es : List (Fin n × Event m C)) {s s' : Sys n m C}, Inv s → s.run es = some s' →
      (∀ ce ∈ es, ce.2.isPlain w = false) → -2 ^ 63 ≤ (s.sems w).count → (s.sems w).count + posts w es < 2 ^ 63 →
      0 < s.waits w es → 0 ≤ (s'.sems w).count
  | [], s, s', _, _, _, _, _, hw => by simp [Sys.waits] at hw
  | (c, e) :: es, s, s', h, hs, hplain, hlo, hhi, hw => by
    cases hc : s.completes w e with
    | true =>
      have hpos := Sys.count_pos_of_completes hc
      exact (count_run (by omega) (Int.le_refl 0) ((c, e) :: es) h hs hplain (by omega) hhi).2
    | false =>
      obtain ⟨s₁, hs₁, hs₂⟩ := Option.bind_eq_some_iff.1 hs
      have hstep : SemStep w s c e s₁ := step_sem h (hplain _ (List.mem_cons_self ..)) hs₁
      rw [posts_cons] at hhi
      rw [Sys.waits_cons es hs₁, hc, Bool.toNat_false, Nat.zero_add] at hw
      push_cast at hhi
      have hcount := hstep.count_eq hlo (by omega)
      rw [hc, Bool.toNat_false] at hcount
      exact count_nonneg_of_waits es (step_inv h hs₁) hs₂ (fun ce hce => hplain ce (List.mem_cons_of_mem _ hce))
        (by omega) (by omega) hw

/-! ## No lost wake-up -/

/-- The protocol of a semaphore's queue. -/
structure SemInv (w : Fin m) (s : Sys n m C) : Prop where
  /-- A task on its way into the queue holds the lock. -/
  parks : ∀ c t, (s.cpus c).parking = some (t, w) →
    (s.sems w).wq.lock = true ∧ ∃ id, t = .task id ∧ s.resume t = .semWait w
  parks_one : ∀ c d t t', (s.cpus c).parking = some (t, w) → (s.cpus d).parking = some (t', w) → c = d
  queue : ∀ t ∈ (s.sems w).wq.list, ∃ id, t = .task id ∧ s.resume t = .semWait w
  /-- The lock is only held between two critical sections by a task that found nothing left. -/
  locked : (s.sems w).wq.lock = true → (s.sems w).count ≤ 0
  /-- While a task is parked, every unit has a woken task on its way to it. -/
  enough : (s.sems w).wq.list ≠ [] → (s.sems w).count ≤ (s.woken w).card

theorem Inv.lt_nextId {s : Sys n m C} (h : Inv s) {id : Nat} {p : Place n m} (hp : id ∈ s.bag p) : id < s.nextId := by
  have hle : (s.bag p).count id ≤ s.count id := count_le_total p
  have hpos := List.count_pos_iff.2 hp
  by_contra hge
  rw [h.count_eq, if_neg (by omega)] at hle
  omega

/-- Where a task is while its CPU takes it into a queue. -/
theorem Inv.mem_of_parking {s : Sys n m C} (h : Inv s) {c : Fin n} {id : Nat} {w : Fin m}
    (hp : (s.cpus c).parking = some (.task id, w)) :
    ∃ p, id ∈ s.bag p ∧ (p = .current c ∨ p = .prev c ∨ p = .hand c) := by
  have hstack : (s.cpus c).stack = .task id → ∃ p, id ∈ s.bag p ∧ (p = .current c ∨ p = .prev c ∨ p = .hand c) := by
    intro hs
    rcases h.mem_of_stack hs with hm | hm
    · exact ⟨_, hm, Or.inl rfl⟩
    · exact ⟨_, hm, Or.inr (Or.inl rfl)⟩
  unfold PerCpu.parking at hp
  split at hp
  · exact hstack (congrArg Prod.fst (Option.some.inj hp))
  · exact hstack (congrArg Prod.fst (Option.some.inj hp))
  · split at hp
    · rename_i hprev
      cases hp
      exact ⟨.prev c, by simp [Sys.bag, hprev, TaskRef.own], Or.inr (Or.inl rfl)⟩
    · cases hp
  · split at hp
    · rename_i hprev
      cases hp
      exact ⟨.prev c, by simp [Sys.bag, hprev, TaskRef.own], Or.inr (Or.inl rfl)⟩
    · cases hp
  · rename_i hph
    cases hp
    exact ⟨.hand c, by simp [Sys.bag, hph, Phase.hand, TaskRef.own], Or.inr (Or.inr rfl)⟩
  · cases hp

theorem Sys.mem_woken {s : Sys n m C} {w : Fin m} {id : Nat} :
    id ∈ s.woken w ↔ id < s.nextId ∧ s.resume (.task id) = .semWait w ∧ .task id ∉ (s.sems w).wq.list ∧
      ∀ c, (s.cpus c).parking ≠ some (.task id, w) := by
  simp [Sys.woken]

namespace SemInv

variable {w : Fin m} {s s' : Sys n m C} {c : Fin n}

/-- While the lock is free no task is on its way into the queue. -/
theorem not_parking (hi : SemInv w s) (hfree : (s.sems w).wq.lock = false) (d : Fin n) (t : TaskRef n) :
    (s.cpus d).parking ≠ some (t, w) := by
  intro hp
  have hlock := (hi.parks d t hp).1
  rw [hfree] at hlock
  cases hlock

theorem quiet (hi : SemInv w s) (h : Inv s) (hq : Quiet w s s') : SemInv w s' where
  parks := by
    intro d t hp
    have hp₀ := (hq.parking d t).1 hp
    obtain ⟨hlock, id, rfl, hres⟩ := hi.parks d t hp₀
    obtain ⟨p, hmem, -⟩ := h.mem_of_parking hp₀
    exact ⟨by rw [hq.sems]; exact hlock, id, rfl, hq.resume id (h.lt_nextId hmem) hres⟩
  parks_one := fun d d' t t' hp hp' => hi.parks_one d d' t t' ((hq.parking d t).1 hp) ((hq.parking d' t').1 hp')
  queue := by
    intro t ht
    rw [hq.sems] at ht
    obtain ⟨id, rfl, hres⟩ := hi.queue t ht
    have hmem : id ∈ s.bag (.waitQueue w) := mem_ids.2 ht
    exact ⟨id, rfl, hq.resume id (h.lt_nextId hmem) hres⟩
  locked := by rw [hq.sems]; exact hi.locked
  enough := by
    rw [hq.sems]
    intro hne
    have hsub : s.woken w ⊆ s'.woken w := by
      intro id hid
      obtain ⟨hlt, hres, hout, hpark⟩ := Sys.mem_woken.1 hid
      refine Sys.mem_woken.2 ⟨Nat.lt_of_lt_of_le hlt hq.nextId, hq.resume id hlt hres, by rw [hq.sems]; exact hout, ?_⟩
      intro d hp
      exact hpark d ((hq.parking d _).1 hp)
    have hle := hi.enough hne
    have hcard := Finset.card_le_card hsub
    omega

/-- A post gives one unit and wakes one task. -/
theorem post (hi : SemInv w s) (h : Inv s) (hfree : (s.sems w).wq.lock = false) {k : Int}
    (hsem : s'.sems w = ⟨⟨false, (s.sems w).wq.list.tail⟩, k⟩) (hk : k ≤ (s.sems w).count + 1)
    (hpark : ParkSame w s s') (hres : s'.resume = s.resume) (hid : s'.nextId = s.nextId) : SemInv w s' := by
  have hnone : ∀ d t, (s'.cpus d).parking ≠ some (t, w) := fun d t hp =>
    hi.not_parking hfree d t ((hpark d t).1 hp)
  constructor
  · intro d t hp; exact absurd hp (hnone d t)
  · intro d d' t t' hp; exact absurd hp (hnone d t)
  · intro t ht
    rw [hsem] at ht
    rw [hres]
    exact hi.queue t (List.mem_of_mem_tail ht)
  · rw [hsem]; intro hlock; cases hlock
  · rw [hsem]
    intro hne
    cases hlist : (s.sems w).wq.list with
    | nil => exact absurd (by simp [hlist]) hne
    | cons t rest =>
      have ht : t ∈ (s.sems w).wq.list := by simp [hlist]
      obtain ⟨id, rfl, hwait⟩ := hi.queue t ht
      have hmem : id ∈ s.bag (.waitQueue w) := mem_ids.2 ht
      -- the task that left the queue was in it once
      have hrest : .task id ∉ rest := by
        intro hr
        have hle : (s.bag (.waitQueue w)).count id ≤ 1 := (count_le_total _).trans (h.count_le_one id)
        have hpos := List.count_pos_iff.2 (mem_ids.2 hr)
        simp only [Sys.bag, hlist, ids_cons, TaskRef.own, List.count_append, List.count_singleton, BEq.rfl,
          if_true] at hle
        omega
      have hnew : id ∉ s.woken w := fun hw => (Sys.mem_woken.1 hw).2.2.1 ht
      have hsub : insert id (s.woken w) ⊆ s'.woken w := by
        intro j hj
        rw [Sys.mem_woken, hsem, hid, hres, hlist]
        rcases Finset.mem_insert.1 hj with rfl | hj
        · exact ⟨h.lt_nextId hmem, hwait, hrest, fun d => hnone d _⟩
        · obtain ⟨hlt, hr, hout, -⟩ := Sys.mem_woken.1 hj
          rw [hlist] at hout
          exact ⟨hlt, hr, fun hj => hout (List.mem_cons_of_mem _ hj), fun d => hnone d _⟩
      have hcard := Finset.card_le_card hsub
      rw [Finset.card_insert_of_notMem hnew] at hcard
      have hle := hi.enough (by simp [hlist])
      show k ≤ _
      omega

/-- A unit is taken by a woken task, or by one that overtakes it. -/
theorem take (hi : SemInv w s) (h : Inv s) (hfree : (s.sems w).wq.lock = false)
    (hsem : s'.sems w = ⟨(s.sems w).wq, (s.sems w).count - 1⟩) (hpark : ParkSame w s s')
    (hres : s'.resume = Function.update s.resume (s.cpus c).stack .caller) (hid : s'.nextId = s.nextId) :
    SemInv w s' := by
  have hnone : ∀ d t, (s'.cpus d).parking ≠ some (t, w) := fun d t hp =>
    hi.not_parking hfree d t ((hpark d t).1 hp)
  constructor
  · intro d t hp; exact absurd hp (hnone d t)
  · intro d d' t t' hp; exact absurd hp (hnone d t)
  · intro t ht
    rw [hsem] at ht
    obtain ⟨id, rfl, hwait⟩ := hi.queue t ht
    have hmem : id ∈ s.bag (.waitQueue w) := mem_ids.2 ht
    have hstack := h.not_stack hmem nofun nofun c
    exact ⟨id, rfl, by rw [hres, Function.update_of_ne (Ne.symm hstack)]; exact hwait⟩
  · rw [hsem, hfree]; intro hlock; cases hlock
  · rw [hsem]
    intro hne
    have hle := hi.enough hne
    have hkeep : ∀ j ∈ s.woken w, (s.cpus c).stack ≠ .task j → j ∈ s'.woken w := by
      intro j hj hstack
      obtain ⟨hlt, hr, hout, -⟩ := Sys.mem_woken.1 hj
      rw [Sys.mem_woken, hsem, hid, hres, Function.update_of_ne (Ne.symm hstack)]
      exact ⟨hlt, hr, hout, fun d => hnone d _⟩
    have hcard : (s.woken w).card ≤ (s'.woken w).card + 1 := by
      cases hst : (s.cpus c).stack with
      | idle d =>
        have := Finset.card_le_card fun j hj => hkeep j hj (by simp [hst])
        omega
      | task id =>
        have hsub : (s.woken w).erase id ⊆ s'.woken w := by
          intro j hj
          obtain ⟨hne, hj⟩ := Finset.mem_erase.1 hj
          exact hkeep j hj (by simpa [hst] using Ne.symm hne)
        have := Finset.card_le_card hsub
        have := Finset.pred_card_le_card_erase (s := s.woken w) (a := id)
        omega
    show (s.sems w).count - 1 ≤ _
    omega

/-- A task that finds nothing left keeps the lock. -/
theorem block (hi : SemInv w s) (hfree : (s.sems w).wq.lock = false) (hcount : (s.sems w).count ≤ 0) {id : Nat}
    (hstack : (s.cpus c).stack = .task id) (hsem : s'.sems w = ⟨⟨true, (s.sems w).wq.list⟩, (s.sems w).count⟩)
    (hpark : ∀ d t, (s'.cpus d).parking = some (t, w) ↔
      d = c ∧ t = (s.cpus c).stack ∨ d ≠ c ∧ (s.cpus d).parking = some (t, w))
    (hres : s'.resume = Function.update s.resume (s.cpus c).stack (.semWait w)) : SemInv w s' := by
  have hpark' : ∀ d t, (s'.cpus d).parking = some (t, w) → d = c ∧ t = (s.cpus c).stack := by
    intro d t hp
    rcases (hpark d t).1 hp with hc | ⟨-, hp⟩
    · exact hc
    · exact absurd hp (hi.not_parking hfree d t)
  constructor
  · intro d t hp
    obtain ⟨-, rfl⟩ := hpark' d t hp
    exact ⟨by rw [hsem], id, hstack, by rw [hres, Function.update_self]⟩
  · intro d d' t t' hp hp'
    rw [(hpark' d t hp).1, (hpark' d' t' hp').1]
  · intro t ht
    rw [hsem] at ht
    obtain ⟨j, rfl, hwait⟩ := hi.queue t ht
    refine ⟨j, rfl, ?_⟩
    rw [hres]
    by_cases hj : (s.cpus c).stack = .task j
    · rw [hj, Function.update_self]
    · rw [Function.update_of_ne (Ne.symm hj)]; exact hwait
  · rw [hsem]; exact fun _ => hcount
  · rw [hsem]
    intro _
    show (s.sems w).count ≤ _
    omega

/-- The lock passes from the blocked task, now in the queue, to nobody. -/
theorem park (hi : SemInv w s) {t : TaskRef n} (ht : (s.cpus c).parking = some (t, w))
    (hsem : s'.sems w = ⟨⟨false, (s.sems w).wq.list ++ [t]⟩, (s.sems w).count⟩)
    (hpark : ∀ d t', (s'.cpus d).parking = some (t', w) ↔ d ≠ c ∧ (s.cpus d).parking = some (t', w))
    (hres : s'.resume = s.resume) : SemInv w s' := by
  have hnone : ∀ d t', (s'.cpus d).parking ≠ some (t', w) := by
    intro d t' hp
    obtain ⟨hd, hp⟩ := (hpark d t').1 hp
    exact hd (hi.parks_one d c t' t hp ht)
  obtain ⟨hlock, htask⟩ := hi.parks c t ht
  constructor
  · intro d t hp; exact absurd hp (hnone d t)
  · intro d d' t t' hp; exact absurd hp (hnone d t)
  · intro t' ht'
    rw [hsem] at ht'
    rw [hres]
    rcases List.mem_append.1 ht' with hin | hin
    · exact hi.queue t' hin
    · rw [List.mem_singleton.1 hin]; exact htask
  · rw [hsem]; intro h; cases h
  · rw [hsem]
    intro _
    have hle := hi.locked hlock
    show (s.sems w).count ≤ _
    omega

end SemInv

/-- **One step of one CPU** keeps the protocol of a semaphore. -/
theorem step_semInv {w : Fin m} {s s' : Sys n m C} {c : Fin n} {e : Event m C} (h : Inv s) (hi : SemInv w s)
    (hplain : e.isPlain w = false) (hctx : e.isWait w → ¬ s.completes w e → ¬ (s.cpus c).stack.isIdle)
    (hlo : -2 ^ 63 ≤ (s.sems w).count) (hhi : (s.sems w).count + (e.isPost w).toNat < 2 ^ 63)
    (hs : s.step c e = some s') : SemInv w s' := by
  have hstep := step_sem h hplain hs
  have hcount := hstep.count_eq hlo hhi
  cases hstep with
  | quiet _ _ hq => exact hi.quiet h hq
  | post hfree hsem hpark hres hid =>
    refine hi.post h hfree hsem ?_ hpark hres hid
    simp only [hsem, Event.isPost, decide_true, Bool.toNat_true] at hcount
    omega
  | take hfree _ hsem hpark hres hid => exact hi.take h hfree hsem hpark hres hid
  | block hfree hle hsem hpark hres _ =>
    have hnot := hctx (by simp [Event.isWait]) (by simp [Sys.completes, hle])
    cases hst : (s.cpus c).stack with
    | idle d => exact absurd (by rw [hst]; rfl) hnot
    | task id => exact hi.block hfree hle hst hsem hpark hres
  | park t ht hsem hpark hres _ => exact hi.park ht hsem hpark hres

theorem run_semInv {w : Fin m} {lo : Int} (hlo : -2 ^ 63 ≤ lo) (hlo₀ : lo ≤ 0) :
    ∀ (es : List (Fin n × Event m C)) {s s' : Sys n m C}, Inv s → SemInv w s → s.run es = some s' →
      (∀ ce ∈ es, ce.2.isPlain w = false) → s.taskContext w es → lo ≤ (s.sems w).count →
      (s.sems w).count + posts w es < 2 ^ 63 → SemInv w s'
  | [], s, s', _, hi, hs, _, _, _, _ => by cases hs; exact hi
  | (c, e) :: es, s, s', h, hi, hs, hplain, hctx, hle, hhi => by
    obtain ⟨s₁, hs₁, hs₂⟩ := Option.bind_eq_some_iff.1 hs
    have hplain₀ : e.isPlain w = false := hplain _ (List.mem_cons_self ..)
    have hstep : SemStep w s c e s₁ := step_sem h hplain₀ hs₁
    rw [posts_cons] at hhi
    push_cast at hhi
    have hcount := hstep.count_eq (by omega) (by omega)
    have hle₁ := hstep.le_count (by omega) (by omega) hlo₀ hle
    obtain ⟨hblock, hctx⟩ := Sys.taskContext_cons hs₁ hctx
    have hi₁ : SemInv w s₁ := step_semInv h hi hplain₀ hblock (by omega) (by omega) hs₁
    exact run_semInv hlo hlo₀ es (step_inv h hs₁) hi₁ hs₂ (fun ce hce => hplain ce (List.mem_cons_of_mem _ hce))
      hctx hle₁ (by omega)

theorem boot_semInv (w : Fin m) (counts : Fin m → Int) (regs : Fin n → C) (zero : C) :
    SemInv w (Sys.boot counts regs zero) where
  parks := fun c t hp => by cases hp
  parks_one := fun c d t t' hp => by cases hp
  queue := fun t ht => by cases ht
  locked := fun hlock => by cases hlock
  enough := fun hne => absurd rfl hne

/-! ## Mutexes -/

section Mutex

variable {w : Fin m} {s : Sys n m C} {c : Fin n} {e : Event m C} {held : List (TaskRef n)}

/-- A completed `lock` opens a section and an `unlock` closes one. -/
theorem Sys.length_holdersStep (huse : e.isPost w → held ≠ []) :
    (s.holdersStep w c e held).length + (e.isPost w).toNat = held.length + (s.completes w e).toNat := by
  unfold Sys.holdersStep
  by_cases hc : s.completes w e
  · -- a step is not both a wait and a post
    have hpost : e.isPost w = false := by
      unfold Sys.completes at hc
      cases e with
      | call k => cases k <;> first | rfl | simp [Event.isWait] at hc
      | _ => rfl
    simp [hc, hpost]
  · rw [if_neg hc]
    by_cases hp : e.isPost w
    · have hpos := List.length_pos_of_ne_nil (huse hp)
      rw [if_pos hp]
      split
      · rename_i hmem
        rw [List.length_erase_of_mem hmem]
        simp only [hc, hp, Bool.toNat_true, Bool.toNat_false]
        omega
      · rw [List.length_tail]
        simp only [hc, hp, Bool.toNat_true, Bool.toNat_false]
        omega
    · simp [hc, hp]

/-- The open sections of a run: the completed `lock`s that no `unlock` followed. -/
theorem length_holders : ∀ (es : List (Fin n × Event m C)) {s s' : Sys n m C} {held : List (TaskRef n)},
    s.run es = some s' → s.mutexUse w held es →
    (s.holders w held es).length + posts w es = held.length + s.waits w es
  | [], s, s', held, _, _ => by simp [Sys.holders, posts, Sys.waits]
  | (c, e) :: es, s, s', held, hs, huse => by
    obtain ⟨s₁, hs₁, hs₂⟩ := Option.bind_eq_some_iff.1 hs
    replace hs₁ : s.step c e = some s₁ := hs₁
    obtain ⟨hheld, huse⟩ := Sys.mutexUse_cons hs₁ huse
    have hstep := Sys.length_holdersStep (s := s) (c := c) hheld
    have ih := length_holders es hs₂ huse
    rw [posts_cons, Sys.waits_cons es hs₁, Sys.holders, hs₁]
    show (s₁.holders w (s.holdersStep w c e held) es).length + _ = _
    omega

end Mutex

/-! ## Runs -/

/-- **Semaphores and mutexes**, over every interleaving of the CPUs' critical sections and from every initial count, as
long as the units fit an `isize`: completed waits are covered by the initial units and the posts, the count only drops
below zero if it started there, and while a task is parked every unit has a woken task on its way to it. A semaphore
that starts at one and is posted only by its holders has at most one holder. -/
theorem semaphore_correct (counts : Fin m → Int) (regs : Fin n → C) (zero : C) (w : Fin m)
    (es : List (Fin n × Event m C)) {s : Sys n m C} (hs : (Sys.boot counts regs zero).run es = some s)
    (hplain : ∀ ce ∈ es, ce.2.isPlain w = false) (hlo : -2 ^ 63 ≤ counts w) (hhi : counts w + posts w es < 2 ^ 63) :
    ((Sys.boot counts regs zero).waits w es : Int) ≤ max 0 (counts w + posts w es) ∧
    min 0 (counts w) ≤ (s.sems w).count ∧
    ((Sys.boot counts regs zero).taskContext w es → (s.sems w).wq.list ≠ [] →
      (s.sems w).count ≤ (s.woken w).card) ∧
    (counts w = 1 → (Sys.boot counts regs zero).mutexUse w [] es →
      ((Sys.boot counts regs zero).holders w [] es).length ≤ 1) := by
  have hinv := boot_inv counts regs zero
  have hmin : -2 ^ 63 ≤ min 0 (counts w) := by omega
  have hmin₀ : min 0 (counts w) ≤ 0 := min_le_left _ _
  obtain ⟨hcount, hle⟩ := count_run hmin hmin₀ es hinv hs hplain (min_le_right _ _) hhi
  replace hcount : (s.sems w).count = counts w + posts w es - (Sys.boot counts regs zero).waits w es := hcount
  refine ⟨?_, hle, ?_, ?_⟩
  · have hpos := count_nonneg_of_waits es hinv hs hplain hlo hhi
    omega
  · intro hctx
    have hi := run_semInv hmin hmin₀ es hinv (boot_semInv w counts regs zero) hs hplain hctx (min_le_right _ _) hhi
    exact hi.enough
  · intro hone huse
    have hlen := length_holders es hs huse
    simp only [List.length_nil] at hlen
    omega

local instance mutex_cpus : NeZero 1 := ⟨by decide⟩

/-- Task 1 locks, tasks 2 and 3 block, task 1 unlocks: task 2 is on its way and task 3 is parked. -/
def mutexRun : List (Fin 1 × Event 1 Nat) :=
  ([(0, .call .init), (0, .call (.taskNew 0)), (0, .call (.taskNew 0)), (0, .call (.taskNew 0)), (0, .call (.spawn 1)),
    (0, .call (.spawn 2)), (0, .call (.spawn 3)), (0, .call .yieldNow)] : List (Fin 1 × Event 1 Nat)) ++
  (List.replicate 5 (0, .advance) : List (Fin 1 × Event 1 Nat)) ++
  ([(0, .call (.semWait 0)), (0, .call .yieldNow)] : List (Fin 1 × Event 1 Nat)) ++
  (List.replicate 5 (0, .advance) : List (Fin 1 × Event 1 Nat)) ++
  ([(0, .call (.semWait 0))] : List (Fin 1 × Event 1 Nat)) ++
  (List.replicate 5 (0, .advance) : List (Fin 1 × Event 1 Nat)) ++
  ([(0, .call (.semWait 0))] : List (Fin 1 × Event 1 Nat)) ++
  (List.replicate 5 (0, .advance) : List (Fin 1 × Event 1 Nat)) ++
  ([(0, .call (.semPost 0)), (0, .advance), (0, .advance)] : List (Fin 1 × Event 1 Nat))

theorem semaphore_correct_mutexRun :
    ∃ s, (Sys.boot (fun _ => 1) (fun _ => 0) 0).run mutexRun = some s ∧ (s.sems 0).wq.list = [.task 3] ∧
      (s.sems 0).count = 1 ∧ 1 ≤ (s.woken 0).card ∧
      ((Sys.boot (fun _ => 1) (fun _ => 0) 0).holders 0 [] mutexRun).length ≤ 1 := by
  have hrun : ((Sys.boot (fun _ => 1) (fun _ => 0) 0).run mutexRun).map
      (fun s => ((s.sems 0).wq.list, (s.sems 0).count)) = some ([.task 3], 1) := by decide +kernel
  obtain ⟨s, hs, hv⟩ := Option.map_eq_some_iff.1 hrun
  obtain ⟨hlist, hcount⟩ := Prod.mk.inj hv
  have hplain : ∀ ce ∈ mutexRun, ce.2.isPlain 0 = false := by simp [mutexRun, Event.isPlain]
  obtain ⟨-, -, henough, hmutex⟩ := semaphore_correct _ _ _ 0 mutexRun hs hplain (by decide) (by decide)
  refine ⟨s, hs, hlist, hcount, ?_, hmutex rfl (by decide +kernel)⟩
  have hle := henough (by decide +kernel) (by simp [hlist])
  omega

/-- A semaphore built with a negative count starts below zero, with no wait and no post. -/
theorem semaphore_negative_initial :
    ∃ s : Sys 1 1 Nat, (Sys.boot (fun _ => -1) (fun _ => 0) 0).run [] = some s ∧ (s.sems 0).count < 0 ∧
      ¬ (s.waits 0 [] : Int) ≤ -1 + posts (m := 1) (n := 1) (C := Nat) 0 [] :=
  ⟨_, rfl, by decide, by decide⟩

end

end Koros.Sched
