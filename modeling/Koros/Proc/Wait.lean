import Koros.Lib.Runs
import Mathlib.Logic.Function.Basic
import Mathlib.Data.List.Nodup

/-!
# Exit and wait

`exit_current`, `matching_zombie` and `reap` of `apps/korix/src/sched/mod.rs` and `sys_wait4` of `syscall/mod.rs`, with the
semaphore `child_events` of every process. Each process has one task, which goes through these functions by sections
under a lock, so a run is any interleaving of the sections of all tasks.

`matching_zombie` takes the locks of the processes one after the other under the lock of the table. It may miss a child
that becomes a zombie meanwhile, which is the same as if the child became one after it; the child cannot post its event
before the table is free again. Which of several zombies it finds is left open.

- `Inv`: what holds in every state, with the history of forks, exits and waits;
- `Inv.blockedWithChild`: a `wait4` called with a matching child is blocked only while there is one;
- `waits_sound`: an exited child is returned once, to its parent and with its status, and a task that is blocked while a
  matching child is a zombie is about to get that child's event;
- `blocks_without_event`: a task blocks without a child, and while a child is a zombie that has not posted its event.
-/
set_option autoImplicit false

namespace Koros.Proc.Wait

open Koros.Lib

/-! ## Processes and tasks -/

/-- `ProcessState`, as far as exit and wait use it. -/
structure Process where
  parent : Nat
  exitCode : BitVec 32
  /-- `state == STATE_ZOMBIE`. -/
  zombie : Bool
  /-- The count of `child_events`; its queue holds the process's own task, or nothing. -/
  childEvents : Nat
deriving DecidableEq, Repr

/-- The arguments of a `wait4`. -/
structure Request where
  requested : Int
  status : Nat
  nohang : Bool
deriving DecidableEq, Repr

/-- Where a task is. -/
inductive Pc where
  | user
  /-- At the head of the loop of `sys_wait4`. -/
  | waitLoop (r : Request)
  /-- `matching_zombie` returned the child. -/
  | waitStatus (r : Request) (child : Nat)
  /-- The status word has been written, unless the pointer is null. -/
  | waitReap (child : Nat) (word : Option (BitVec 32))
  /-- In `Semaphore::wait`, before the count is tested. -/
  | waitEvents (r : Request)
  /-- In the queue of the semaphore. -/
  | waitBlocked (r : Request)
  /-- In `exit_current`: a zombie that has not notified its parent. -/
  | exitNotify (parent : Nat)
  | exited
deriving DecidableEq, Repr

/-- The task is in `exit_current`, behind the mark. -/
def Pc.exiting : Pc → Bool
  | .exitNotify _ | .exited => true
  | _ => false

/-- The request of the `wait4` that the task is in, until it has written the status of a child. -/
def Pc.request : Pc → Option Request
  | .waitLoop r | .waitStatus r _ | .waitEvents r | .waitBlocked r => some r
  | _ => none

/-- A `wait4` that returned a child, and the status word it wrote. -/
structure Return where
  caller : Nat
  child : Nat
  word : Option (BitVec 32)
deriving DecidableEq, Repr

structure World where
  /-- `PROCESSES`. -/
  processes : Nat → Option Process
  /-- `NEXT_PID`. -/
  nextPid : Nat
  /-- The task of each process that was ever created. -/
  tasks : Nat → Option Pc
  /-- History: the parent of each process, the code each process exited with, and the waits that returned a child. -/
  parentOf : Nat → Nat
  codeOf : Nat → Option (BitVec 32)
  returns : List Return

/-- The status word of an exit code. -/
def statusWord (code : BitVec 32) : BitVec 32 := (code &&& 0xff) <<< 8

/-- The condition on the pid in `matching_zombie`. -/
def matchesPid (requested : Int) (pid : Nat) : Bool := requested = -1 || (decide (requested > 0) && (pid : Int) = requested)

namespace World

def setPc (w : World) (pid : Nat) (pc : Pc) : World := { w with tasks := Function.update w.tasks pid (some pc) }

def setProcess (w : World) (pid : Nat) (p : Option Process) : World :=
  { w with processes := Function.update w.processes pid p }

/-- The child is one that `matching_zombie` may return. -/
def isMatch (w : World) (parent : Nat) (requested : Int) (child : Nat) : Bool :=
  match w.processes child with
  | some p => p.parent = parent && p.zombie && matchesPid requested child
  | none => false

/-- `PROCESSES` knows no matching zombie. -/
def noMatch (w : World) (parent : Nat) (requested : Int) : Bool :=
  (List.range (w.nextPid + 1)).all fun child => !w.isMatch parent requested child

/-! ## Sections -/

/-- `sys_clone` creates a process. -/
def fork (w : World) (pid : Nat) : World :=
  let child := w.nextPid + 1
  { w.setProcess child (some ⟨pid, 0, false, 0⟩) with
    nextPid := child
    tasks := Function.update w.tasks child (some .user)
    parentOf := Function.update w.parentOf child pid }

/-- `sys_wait4` is called; what it refuses returns at once. -/
def wait4 (w : World) (pid : Nat) (requested : Int) (status : Nat) (options : BitVec 64) : World :=
  if options &&& ~~~11#64 ≠ 0 then w
  else if requested = 0 ∨ requested < -1 then w
  else w.setPc pid (.waitLoop ⟨requested, status, options &&& 1#64 ≠ 0⟩)

/-- The head of the loop, with the zombie that `matching_zombie` found. -/
def look (w : World) (pid : Nat) (r : Request) : Option Nat → Option World
  | some child => if w.isMatch pid r.requested child then some (w.setPc pid (.waitStatus r child)) else none
  | none =>
    if w.noMatch pid r.requested then some (w.setPc pid (if r.nohang then .user else .waitEvents r)) else none

/-- The status word is written to the user; a fault ends the call. -/
def writeStatus (w : World) (pid : Nat) (r : Request) (child : Nat) (fault : Bool) : Option World :=
  (w.processes child).map fun c =>
    if r.status = 0 then w.setPc pid (.waitReap child none)
    else if fault then w.setPc pid .user
    else w.setPc pid (.waitReap child (some (statusWord c.exitCode)))

/-- `reap`, and the return of `sys_wait4`. -/
def reap (w : World) (pid child : Nat) (word : Option (BitVec 32)) : Option World :=
  (w.processes child).map fun _ =>
    { (w.setProcess child none).setPc pid .user with returns := ⟨pid, child, word⟩ :: w.returns }

/-- One round of `Semaphore::wait`. -/
def semWait (w : World) (pid : Nat) (r : Request) : Option World :=
  (w.processes pid).map fun p =>
    if 0 < p.childEvents then
      (w.setProcess pid (some { p with childEvents := p.childEvents - 1 })).setPc pid (.waitLoop r)
    else w.setPc pid (.waitBlocked r)

/-- `exit_current`, up to the mark. -/
def exit (w : World) (pid : Nat) (code : BitVec 32) : Option World :=
  (w.processes pid).map fun p =>
    { (w.setProcess pid (some { p with exitCode := code, zombie := true })).setPc pid (.exitNotify p.parent) with
      codeOf := Function.update w.codeOf pid (some code) }

/-- A waiter in the queue of the semaphore becomes runnable. -/
def wake : Pc → Pc
  | .waitBlocked r => .waitEvents r
  | pc => pc

/-- `parent.child_events.post()`. -/
def post (w : World) (parent : Nat) : World :=
  match w.processes parent with
  | some p =>
    { w.setProcess parent (some { p with childEvents := p.childEvents + 1 }) with
      tasks := Function.update w.tasks parent ((w.tasks parent).map wake) }
  | none => w

/-- The rest of `exit_current`. -/
def notify (w : World) (pid parent : Nat) : World :=
  (if parent ≠ 0 ∧ parent ≠ pid then w.post parent else w).setPc pid .exited

end World

/-! ## Runs -/

inductive Event where
  | fork (pid : Nat)
  | wait4 (pid : Nat) (requested : Int) (status : Nat) (options : BitVec 64)
  | look (pid : Nat) (found : Option Nat)
  | writeStatus (pid : Nat) (fault : Bool)
  | reap (pid : Nat)
  | semWait (pid : Nat)
  | exit (pid : Nat) (code : BitVec 32)
  | notify (pid : Nat)
deriving DecidableEq, Repr

/-- The event is a `wait4` of the process. -/
def Event.isWaitOf (pid : Nat) : Event → Bool
  | .wait4 caller _ _ _ => caller = pid
  | _ => false

namespace World

def step (w : World) : Event → Option World
  | .fork pid => if w.tasks pid = some .user then some (w.fork pid) else none
  | .wait4 pid requested status options =>
    if w.tasks pid = some .user then some (w.wait4 pid requested status options) else none
  | .look pid found =>
    match w.tasks pid with
    | some (.waitLoop r) => w.look pid r found
    | _ => none
  | .writeStatus pid fault =>
    match w.tasks pid with
    | some (.waitStatus r child) => w.writeStatus pid r child fault
    | _ => none
  | .reap pid =>
    match w.tasks pid with
    | some (.waitReap child word) => w.reap pid child word
    | _ => none
  | .semWait pid =>
    match w.tasks pid with
    | some (.waitEvents r) => w.semWait pid r
    | _ => none
  | .exit pid code => if w.tasks pid = some .user then w.exit pid code else none
  | .notify pid =>
    match w.tasks pid with
    | some (.exitNotify parent) => some (w.notify pid parent)
    | _ => none

/-- Only the first process runs. -/
def boot : World where
  processes := fun pid => if pid = 1 then some ⟨0, 0, false, 0⟩ else none
  nextPid := 1
  tasks := fun pid => if pid = 1 then some .user else none
  parentOf := fun _ => 0
  codeOf := fun _ => none
  returns := []

variable {w w' : World} {pid child parent : Nat} {r : Request} {pc old : Pc} {requested : Int}

theorem isMatch_iff : w.isMatch parent requested child = true ↔
    ∃ p, w.processes child = some p ∧ p.parent = parent ∧ p.zombie = true ∧ matchesPid requested child = true := by
  unfold isMatch
  cases w.processes child <;> simp [and_assoc]

theorem tasks_setPc {i : Nat} : (w.setPc pid pc).tasks i = if i = pid then some pc else w.tasks i := by
  by_cases hi : i = pid
  · subst hi
    simp [World.setPc]
  · simp [World.setPc, hi]

theorem processes_setProcess {i : Nat} {p : Option Process} :
    (w.setProcess pid p).processes i = if i = pid then p else w.processes i := by
  by_cases hi : i = pid
  · subst hi
    simp [setProcess]
  · simp [setProcess, hi]

/-! ## The invariant -/

/-- What a task at `pc` relies on. -/
def PcOk (w : World) (pid : Nat) : Pc → Prop
  | .waitStatus _ child => ∃ p, w.processes child = some p ∧ p.parent = pid ∧ p.zombie = true
  | .waitReap child word => ∃ p, w.processes child = some p ∧ p.parent = pid ∧ p.zombie = true ∧
      ∀ x, word = some x → x = statusWord p.exitCode
  | .waitEvents r => ∀ child, w.isMatch pid r.requested child = true →
      (∃ p, w.processes pid = some p ∧ 0 < p.childEvents) ∨ w.tasks child = some (.exitNotify pid)
  | .waitBlocked r => ∀ child, w.isMatch pid r.requested child = true → w.tasks child = some (.exitNotify pid)
  | .exitNotify parent => parent = w.parentOf pid
  | _ => True

/-- A wait that returned a child: the child is gone from the table, and the caller got its status. -/
def ReturnOk (w : World) (x : Return) : Prop :=
  w.processes x.child = none ∧ (∃ pc, w.tasks x.child = some pc ∧ pc.exiting = true) ∧ x.caller = w.parentOf x.child ∧
    ∃ code, w.codeOf x.child = some code ∧ ∀ word, x.word = some word → word = statusWord code

structure Inv (w : World) : Prop where
  fresh : ∀ pid, w.nextPid < pid → w.processes pid = none ∧ w.tasks pid = none
  task_pos : ∀ pid pc, w.tasks pid = some pc → 0 < pid
  alive : ∀ pid pc, w.tasks pid = some pc → pc.exiting = false → ∃ p, w.processes pid = some p ∧ p.zombie = false
  parent : ∀ pid p, w.processes pid = some p → w.parentOf pid = p.parent ∧ p.parent < pid
  zombie : ∀ pid p, w.processes pid = some p → p.zombie = true →
    (∃ pc, w.tasks pid = some pc ∧ pc.exiting = true) ∧ w.codeOf pid = some p.exitCode
  pcs : ∀ pid pc, w.tasks pid = some pc → w.PcOk pid pc
  returned : ∀ x ∈ w.returns, w.ReturnOk x
  once : (w.returns.map Return.child).Nodup

theorem boot_inv : boot.Inv := by
  have htask : ∀ pid pc, boot.tasks pid = some pc → pid = 1 ∧ pc = .user := by
    intro pid pc h
    by_cases hp : pid = 1 <;> simp_all [boot]
  have hproc : ∀ pid p, boot.processes pid = some p → pid = 1 ∧ p = ⟨0, 0, false, 0⟩ := by
    intro pid p h
    by_cases hp : pid = 1 <;> simp_all [boot]
  constructor
  · intro pid hpid
    have : pid ≠ 1 := Nat.ne_of_gt hpid
    simp [boot, this]
  · intro pid pc h
    obtain ⟨rfl, -⟩ := htask pid pc h
    decide
  · intro pid pc h _
    obtain ⟨rfl, -⟩ := htask pid pc h
    exact ⟨⟨0, 0, false, 0⟩, rfl, rfl⟩
  · intro pid p h
    obtain ⟨rfl, rfl⟩ := hproc pid p h
    exact ⟨rfl, by decide⟩
  · intro pid p h hz
    obtain ⟨-, rfl⟩ := hproc pid p h
    cases hz
  · intro pid pc h
    obtain ⟨-, rfl⟩ := htask pid pc h
    trivial
  · simp [boot]
  · simp [boot]

/-- What a task relies on is kept by a step that leaves the zombies and the notifications on their way as they are, and adds
only children to be waited for that have still to notify their parent. -/
theorem PcOk.keep {i : Nat} {x : Pc} (hok : w.PcOk i x)
    (hzombie : x ≠ .user → ∀ c q, w.processes c = some q → q.parent = i → q.zombie = true → ∃ q', w'.processes c = some q' ∧
      q'.parent = q.parent ∧ q'.zombie = q.zombie ∧ q'.exitCode = q.exitCode)
    (hmatch : ∀ requested c, w'.isMatch i requested c = true →
      w.isMatch i requested c = true ∨ w'.tasks c = some (.exitNotify i))
    (hevents : ∀ r, x = .waitEvents r → ∀ q, w.processes i = some q → 0 < q.childEvents →
      ∃ q', w'.processes i = some q' ∧ 0 < q'.childEvents)
    (hnotify : ∀ c, w.tasks c = some (.exitNotify i) → w'.tasks c = some (.exitNotify i))
    (hparent : w'.parentOf i = w.parentOf i) : w'.PcOk i x := by
  cases x with
  | waitStatus r c =>
    obtain ⟨q, hq, hqp, hqz⟩ := hok
    obtain ⟨q', hq', h₁, h₂, -⟩ := hzombie (by simp) c q hq hqp hqz
    exact ⟨q', hq', h₁.trans hqp, h₂.trans hqz⟩
  | waitReap c word =>
    obtain ⟨q, hq, hqp, hqz, hword⟩ := hok
    obtain ⟨q', hq', h₁, h₂, h₃⟩ := hzombie (by simp) c q hq hqp hqz
    exact ⟨q', hq', h₁.trans hqp, h₂.trans hqz, h₃ ▸ hword⟩
  | waitEvents r =>
    intro c hc
    rcases hmatch _ c hc with hc | hc
    · rcases hok c hc with ⟨q, hq, hpos⟩ | hn
      · exact .inl (hevents r rfl q hq hpos)
      · exact .inr (hnotify c hn)
    · exact .inr hc
  | waitBlocked r =>
    intro c hc
    rcases hmatch _ c hc with hc | hc
    · exact hnotify c (hok c hc)
    · exact hc
  | exitNotify q => exact (show q = w.parentOf i from hok).trans hparent.symm
  | _ => trivial

/-- A task that is not exiting moves on. -/
theorem Inv.setPc (h : w.Inv) (hold : w.tasks pid = some old) (hrun : old.exiting = false) (hok : w.PcOk pid pc) :
    (w.setPc pid pc).Inv := by
  have htasks : ∀ i, (w.setPc pid pc).tasks i = if i = pid then some pc else w.tasks i := fun i => tasks_setPc
  -- No task waits for an event of this one.
  have hnotify : ∀ i q, w.tasks i = some (.exitNotify q) → (w.setPc pid pc).tasks i = some (.exitNotify q) := by
    intro i q hi
    rw [htasks, if_neg, hi]
    rintro rfl
    rw [hold] at hi
    cases hi
    cases hrun
  have hframe : ∀ i x, w.PcOk i x → (w.setPc pid pc).PcOk i x := by
    intro i x hx
    exact hx.keep (fun _ c q hq _ _ => ⟨q, hq, rfl, rfl, rfl⟩) (fun _ _ hc => .inl hc) (fun _ _ q hq hpos => ⟨q, hq, hpos⟩)
      (fun c hc => hnotify c i hc) rfl
  have hexiting : ∀ i, (∃ x, w.tasks i = some x ∧ x.exiting = true) →
      ∃ x, (w.setPc pid pc).tasks i = some x ∧ x.exiting = true := by
    rintro i ⟨x, hx, hex⟩
    refine ⟨x, ?_, hex⟩
    rw [htasks, if_neg, hx]
    rintro rfl
    rw [hold] at hx
    cases hx
    simp [hrun] at hex
  constructor
  · intro i hi
    refine ⟨(h.fresh i hi).1, ?_⟩
    rw [htasks, if_neg, (h.fresh i hi).2]
    rintro rfl
    simp [(h.fresh _ hi).2] at hold
  · intro i x hi
    rw [htasks] at hi
    split at hi
    · rename_i heq
      exact heq ▸ h.task_pos pid old hold
    · exact h.task_pos i x hi
  · intro i x hi hx
    rw [htasks] at hi
    split at hi
    · rename_i heq
      exact heq ▸ h.alive pid old hold hrun
    · exact h.alive i x hi hx
  · exact h.parent
  · intro i p hp hz
    exact ⟨hexiting i (h.zombie i p hp hz).1, (h.zombie i p hp hz).2⟩
  · intro i x hi
    rw [htasks] at hi
    split at hi
    · rename_i heq
      cases hi
      exact heq ▸ hframe pid pc hok
    · exact hframe i x (h.pcs i x hi)
  · intro x hx
    obtain ⟨hnone, hex, hrest⟩ := h.returned x hx
    exact ⟨hnone, hexiting _ hex, hrest⟩
  · exact h.once

theorem Inv.le_nextPid (h : w.Inv) (ht : w.tasks pid = some pc) : pid ≤ w.nextPid := by
  by_contra hlt
  simp [(h.fresh pid (by omega)).2] at ht

/-! ## Waits -/

theorem Inv.wait4 {status : Nat} {options : BitVec 64} (h : w.Inv) (ht : w.tasks pid = some .user) :
    (w.wait4 pid requested status options).Inv := by
  unfold World.wait4
  split
  · exact h
  split
  · exact h
  · exact h.setPc ht rfl trivial

theorem Inv.look {found : Option Nat} (h : w.Inv) (ht : w.tasks pid = some (.waitLoop r))
    (hs : w.look pid r found = some w') : w'.Inv := by
  cases found with
  | some child =>
    simp only [World.look] at hs
    split at hs
    · rename_i hmatch
      cases hs
      obtain ⟨p, hp, hparent, hz, -⟩ := isMatch_iff.1 hmatch
      exact h.setPc ht rfl ⟨p, hp, hparent, hz⟩
    · cases hs
  | none =>
    simp only [World.look] at hs
    split at hs
    · rename_i hno
      cases hs
      refine h.setPc ht rfl ?_
      split
      · trivial
      · intro child hmatch
        obtain ⟨p, hp, -⟩ := isMatch_iff.1 hmatch
        have hle : child < w.nextPid + 1 := by
          by_contra hlt
          simp [(h.fresh child (by omega)).1] at hp
        have hnot := List.all_eq_true.1 hno child (List.mem_range.2 hle)
        simp [hmatch] at hnot
    · cases hs

theorem Inv.writeStatus {fault : Bool} (h : w.Inv) (ht : w.tasks pid = some (.waitStatus r child))
    (hs : w.writeStatus pid r child fault = some w') : w'.Inv := by
  obtain ⟨p, hp, hparent, hz⟩ : w.PcOk pid (.waitStatus r child) := h.pcs pid _ ht
  obtain ⟨c, hc, rfl⟩ := Option.map_eq_some_iff.1 hs
  obtain rfl := Option.some.inj (hp.symm.trans hc)
  split
  · exact h.setPc ht rfl ⟨p, hp, hparent, hz, by simp⟩
  split
  · exact h.setPc ht rfl trivial
  · refine h.setPc ht rfl ⟨p, hp, hparent, hz, ?_⟩
    intro x hx
    exact (Option.some.inj hx).symm

/-- The count of a semaphore changes, and is not zero if its process relies on it. -/
theorem Inv.setEvents {p : Process} {k : Nat} (h : w.Inv) (hp : w.processes pid = some p)
    (hk : ∀ r, w.tasks pid = some (.waitEvents r) → 0 < k) :
    (w.setProcess pid (some { p with childEvents := k })).Inv := by
  -- Every process keeps its parent, its state and its exit code.
  have hold : ∀ i q, (w.setProcess pid (some { p with childEvents := k })).processes i = some q →
      ∃ q₀, w.processes i = some q₀ ∧ q.parent = q₀.parent ∧ q.zombie = q₀.zombie ∧ q.exitCode = q₀.exitCode := by
    intro i q hq
    rw [processes_setProcess] at hq
    split at hq
    · rename_i hi
      cases hq
      exact ⟨p, hi ▸ hp, rfl, rfl, rfl⟩
    · exact ⟨q, hq, rfl, rfl, rfl⟩
  have hnew : ∀ i q₀, w.processes i = some q₀ →
      ∃ q, (w.setProcess pid (some { p with childEvents := k })).processes i = some q ∧
        q.parent = q₀.parent ∧ q.zombie = q₀.zombie ∧ q.exitCode = q₀.exitCode := by
    intro i q₀ hq
    rw [processes_setProcess]
    split
    · rename_i hi
      subst hi
      obtain rfl := Option.some.inj (hq.symm.trans hp)
      exact ⟨_, rfl, rfl, rfl, rfl⟩
    · exact ⟨q₀, hq, rfl, rfl, rfl⟩
  have hnone : ∀ i, w.processes i = none → (w.setProcess pid (some { p with childEvents := k })).processes i = none := by
    intro i hi
    rw [processes_setProcess, if_neg, hi]
    rintro rfl
    simp [hi] at hp
  have hmatch : ∀ i req c, (w.setProcess pid (some { p with childEvents := k })).isMatch i req c = true →
      w.isMatch i req c = true := by
    intro i req c hc
    obtain ⟨q, hq, hparent, hz, hm⟩ := isMatch_iff.1 hc
    obtain ⟨q₀, hq₀, h₁, h₂, -⟩ := hold c q hq
    exact isMatch_iff.2 ⟨q₀, hq₀, h₁ ▸ hparent, h₂ ▸ hz, hm⟩
  constructor
  · exact fun i hi => ⟨hnone i (h.fresh i hi).1, (h.fresh i hi).2⟩
  · exact h.task_pos
  · intro i x hi hx
    obtain ⟨q₀, hq₀, hz⟩ := h.alive i x hi hx
    obtain ⟨q, hq, -, hqz, -⟩ := hnew i q₀ hq₀
    exact ⟨q, hq, hqz.trans hz⟩
  · intro i q hq
    obtain ⟨q₀, hq₀, hparent, -⟩ := hold i q hq
    rw [hparent]
    exact h.parent i q₀ hq₀
  · intro i q hq hz
    obtain ⟨q₀, hq₀, -, hqz, hcode⟩ := hold i q hq
    rw [hcode]
    exact h.zombie i q₀ hq₀ (hqz ▸ hz)
  · intro i x hi
    refine (h.pcs i x hi).keep (fun _ c q₀ hq₀ _ _ => hnew c q₀ hq₀) (fun req c hc => .inl (hmatch i req c hc)) ?_
      (fun _ hc => hc) rfl
    intro r hr q₀ hq₀ hpos
    rw [processes_setProcess]
    split
    · rename_i heq
      exact ⟨_, rfl, hk r (heq ▸ hr ▸ hi)⟩
    · exact ⟨q₀, hq₀, hpos⟩
  · intro x hx
    obtain ⟨h₁, hrest⟩ := h.returned x hx
    exact ⟨hnone _ h₁, hrest⟩
  · exact h.once

theorem Inv.semWait (h : w.Inv) (ht : w.tasks pid = some (.waitEvents r)) (hs : w.semWait pid r = some w') :
    w'.Inv := by
  obtain ⟨p, hp, rfl⟩ := Option.map_eq_some_iff.1 hs
  split
  · have hloop : (w.setPc pid (.waitLoop r)).Inv := h.setPc ht rfl trivial
    refine hloop.setEvents hp ?_
    intro r' hr'
    simp [tasks_setPc] at hr'
  · rename_i hzero
    refine h.setPc ht rfl ?_
    intro child hmatch
    rcases h.pcs pid _ ht child hmatch with ⟨p', hp', hpos⟩ | hnotify
    · obtain rfl := Option.some.inj (hp.symm.trans hp')
      exact absurd hpos hzero
    · exact hnotify

theorem Inv.reap {word : Option (BitVec 32)} (h : w.Inv) (ht : w.tasks pid = some (.waitReap child word))
    (hs : w.reap pid child word = some w') : w'.Inv := by
  obtain ⟨p, hp, hparent, hz, hword⟩ : w.PcOk pid (.waitReap child word) := h.pcs pid _ ht
  obtain ⟨c, -, rfl⟩ := Option.map_eq_some_iff.1 hs
  have huser : (w.setPc pid .user).Inv := h.setPc ht rfl trivial
  obtain ⟨hexiting, hcode⟩ := huser.zombie child p hp hz
  have hprocs : ∀ i q, (w.setProcess child none).processes i = some q → i ≠ child ∧ w.processes i = some q := by
    intro i q hq
    rw [processes_setProcess] at hq
    split at hq
    · cases hq
    · exact ⟨‹_›, hq⟩
  have hkept : ∀ i q, w.processes i = some q → i ≠ child → (w.setProcess child none).processes i = some q := by
    intro i q hq hi
    rw [processes_setProcess, if_neg hi, hq]
  have hmatch : ∀ i req c, (w.setProcess child none).isMatch i req c = true → w.isMatch i req c = true := by
    intro i req c hc
    obtain ⟨q, hq, hrest⟩ := isMatch_iff.1 hc
    exact isMatch_iff.2 ⟨q, (hprocs c q hq).2, hrest⟩
  -- A process whose task is not exiting is no zombie, so it is not the one that is reaped.
  have halive : ∀ i x, (w.setPc pid .user).tasks i = some x → x.exiting = false → i ≠ child := by
    rintro i x hi hx rfl
    obtain ⟨y, hy, hyex⟩ := hexiting
    obtain rfl := Option.some.inj (hi.symm.trans hy)
    simp [hx] at hyex
  -- The children of other processes stay.
  have hother : ∀ i x q, (w.setPc pid .user).tasks i = some x → x ≠ .user → q.parent = i →
      w.processes child = some q → False := by
    intro i x q hi hx hq hc
    obtain rfl := Option.some.inj (hp.symm.trans hc)
    obtain rfl := hparent.symm.trans hq
    simp [tasks_setPc, Ne.symm hx] at hi
  have hnone : ∀ i, w.processes i = none → (w.setProcess child none).processes i = none := by
    intro i hi
    rw [processes_setProcess]
    split
    · rfl
    · exact hi
  constructor
  · exact fun i hi => ⟨hnone i (huser.fresh i hi).1, (huser.fresh i hi).2⟩
  · exact huser.task_pos
  · intro i x hi hx
    obtain ⟨q, hq, hqz⟩ := huser.alive i x hi hx
    exact ⟨q, hkept i q hq (halive i x hi hx), hqz⟩
  · exact fun i q hq => huser.parent i q (hprocs i q hq).2
  · exact fun i q hq => huser.zombie i q (hprocs i q hq).2
  · intro i x hi
    refine (huser.pcs i x hi).keep (fun hx c q hq hqp _ => ⟨q, hkept c q hq ?_, rfl, rfl, rfl⟩)
      (fun req c hc => .inl (hmatch i req c hc)) (fun r hr q hq hpos => ⟨q, hkept i q hq (halive i x hi (by rw [hr]; rfl)), hpos⟩)
      (fun _ hc => hc) rfl
    rintro rfl
    exact hother i x q hi hx hqp hq
  · intro x hx
    rcases List.mem_cons.1 hx with rfl | hx
    · refine ⟨by simp [World.setPc, processes_setProcess], hexiting, ?_, p.exitCode, hcode, hword⟩
      exact hparent.symm.trans (h.parent child p hp).1.symm
    · obtain ⟨h₁, hrest⟩ := huser.returned x hx
      exact ⟨hnone _ h₁, hrest⟩
  · refine List.nodup_cons.2 ⟨?_, h.once⟩
    intro hmem
    obtain ⟨x, hx, hxc⟩ := List.mem_map.1 hmem
    have := (h.returned x hx).1
    rw [hxc] at this
    simp [hp] at this

/-! ## Forks and exits -/

theorem Inv.fork (h : w.Inv) (ht : w.tasks pid = some .user) : (w.fork pid).Inv := by
  have hle : pid ≤ w.nextPid := h.le_nextPid ht
  have hprocs : ∀ i, (w.fork pid).processes i = if i = w.nextPid + 1 then some ⟨pid, 0, false, 0⟩ else w.processes i :=
    fun i => processes_setProcess
  have htasks : ∀ i, (w.fork pid).tasks i = if i = w.nextPid + 1 then some .user else w.tasks i := by
    intro i
    by_cases hi : i = w.nextPid + 1 <;> simp [World.fork, hi]
  have hparents : ∀ i, (w.fork pid).parentOf i = if i = w.nextPid + 1 then pid else w.parentOf i := by
    intro i
    by_cases hi : i = w.nextPid + 1 <;> simp [World.fork, hi]
  obtain ⟨hnoProc, hnoTask⟩ := h.fresh (w.nextPid + 1) (by omega)
  have hproc : ∀ i q, w.processes i = some q → (w.fork pid).processes i = some q := by
    intro i q hq
    rw [hprocs, if_neg, hq]
    rintro rfl
    simp [hnoProc] at hq
  have htask : ∀ i x, w.tasks i = some x → (w.fork pid).tasks i = some x := by
    intro i x hx
    rw [htasks, if_neg, hx]
    rintro rfl
    simp [hnoTask] at hx
  have hmatch : ∀ i req c, (w.fork pid).isMatch i req c = true → w.isMatch i req c = true := by
    intro i req c hc
    obtain ⟨q, hq, hqp, hqz, hm⟩ := isMatch_iff.1 hc
    rw [hprocs] at hq
    split at hq
    · cases hq
      cases hqz
    · exact isMatch_iff.2 ⟨q, hq, hqp, hqz, hm⟩
  constructor
  · intro i hi
    have hi : w.nextPid + 1 < i := hi
    have hne : i ≠ w.nextPid + 1 := by omega
    simpa [hprocs, htasks, hne] using h.fresh i (by omega)
  · intro i x hi
    rw [htasks] at hi
    split at hi
    · omega
    · exact h.task_pos i x hi
  · intro i x hi hx
    rw [htasks] at hi
    split at hi
    · rename_i heq
      exact ⟨⟨pid, 0, false, 0⟩, by simp [hprocs, heq], rfl⟩
    · obtain ⟨q, hq, hz⟩ := h.alive i x hi hx
      exact ⟨q, hproc i q hq, hz⟩
  · intro i q hq
    rw [hprocs] at hq
    rw [hparents]
    split at hq
    · rename_i heq
      cases hq
      simp only [if_pos heq, true_and]
      omega
    · rename_i hne
      rw [if_neg hne]
      exact h.parent i q hq
  · intro i q hq hz
    rw [hprocs] at hq
    split at hq
    · cases hq
      cases hz
    · obtain ⟨⟨x, hx, hex⟩, hcode⟩ := h.zombie i q hq hz
      exact ⟨⟨x, htask i x hx, hex⟩, hcode⟩
  · intro i x hi
    rw [htasks] at hi
    split at hi
    · cases hi
      trivial
    rename_i hne
    refine (h.pcs i x hi).keep (fun _ c q hq _ _ => ⟨q, hproc c q hq, rfl, rfl, rfl⟩)
      (fun req c hc => .inl (hmatch i req c hc)) (fun _ _ q hq hpos => ⟨q, hproc i q hq, hpos⟩)
      (fun c hc => htask c _ hc) ?_
    rw [hparents, if_neg hne]
  · intro x hx
    obtain ⟨hnone, ⟨y, hy, hex⟩, hcaller, hrest⟩ := h.returned x hx
    have hne : x.child ≠ w.nextPid + 1 := by
      intro heq
      simp [heq, hnoTask] at hy
    refine ⟨by simp [hprocs, hne, hnone], ⟨y, htask _ y hy, hex⟩, by simp [hparents, hne, hcaller], hrest⟩
  · exact h.once

theorem Inv.exit {code : BitVec 32} (h : w.Inv) (ht : w.tasks pid = some .user) (hs : w.exit pid code = some w') :
    w'.Inv := by
  obtain ⟨p, hp, hw'⟩ := Option.map_eq_some_iff.1 hs
  obtain ⟨p', hp', hlive⟩ := h.alive pid _ ht rfl
  obtain rfl := Option.some.inj (hp.symm.trans hp')
  have hprocs : ∀ i, w'.processes i =
      if i = pid then some { p with exitCode := code, zombie := true } else w.processes i := by
    intro i
    rw [← hw']
    exact processes_setProcess
  have htasks : ∀ i, w'.tasks i = if i = pid then some (.exitNotify p.parent) else w.tasks i := by
    intro i
    rw [← hw']
    exact tasks_setPc
  have hcodes : ∀ i, w'.codeOf i = if i = pid then some code else w.codeOf i := by
    intro i
    by_cases hi : i = pid <;> simp [← hw', hi]
  have hparents : w'.parentOf = w.parentOf := by rw [← hw']; rfl
  -- What was a zombie is another process.
  have hzombie : ∀ c q, w.processes c = some q → q.zombie = true → w'.processes c = some q := by
    intro c q hq hz
    rw [hprocs, if_neg, hq]
    rintro rfl
    obtain rfl := Option.some.inj (hp.symm.trans hq)
    simp [hlive] at hz
  have hmatch : ∀ i req c, w'.isMatch i req c = true →
      w.isMatch i req c = true ∨ w'.tasks c = some (.exitNotify i) := by
    intro i req c hc
    obtain ⟨q, hq, hqp, hqz, hm⟩ := isMatch_iff.1 hc
    rw [hprocs] at hq
    split at hq
    · rename_i heq
      cases hq
      exact .inr (by simpa [htasks, heq] using hqp)
    · exact .inl (isMatch_iff.2 ⟨q, hq, hqp, hqz, hm⟩)
  have hnotify : ∀ c i, w.tasks c = some (.exitNotify i) → w'.tasks c = some (.exitNotify i) := by
    intro c i hc
    rw [htasks, if_neg, hc]
    rintro rfl
    simp [ht] at hc
  have hexiting : ∀ i, (∃ x, w.tasks i = some x ∧ x.exiting = true) → ∃ x, w'.tasks i = some x ∧ x.exiting = true := by
    rintro i ⟨x, hx, hex⟩
    by_cases hi : i = pid
    · exact ⟨.exitNotify p.parent, by simp [htasks, hi], rfl⟩
    · exact ⟨x, by simp [htasks, hi, hx], hex⟩
  constructor
  · intro i hi
    have hi : w.nextPid < i := by
      rw [← hw'] at hi
      exact hi
    have hne : i ≠ pid := by
      have := h.le_nextPid ht
      omega
    simpa [hprocs, htasks, hne] using h.fresh i hi
  · intro i x hi
    rw [htasks] at hi
    split at hi
    · rename_i heq
      exact heq ▸ h.task_pos pid _ ht
    · exact h.task_pos i x hi
  · intro i x hi hx
    rw [htasks] at hi
    split at hi
    · cases hi
      cases hx
    · rename_i hne
      obtain ⟨q, hq, hz⟩ := h.alive i x hi hx
      exact ⟨q, by simp [hprocs, hne, hq], hz⟩
  · intro i q hq
    rw [hprocs] at hq
    rw [hparents]
    split at hq
    · rename_i heq
      cases hq
      exact heq ▸ h.parent pid p hp
    · exact h.parent i q hq
  · intro i q hq hz
    rw [hprocs] at hq
    split at hq
    · rename_i heq
      cases hq
      exact ⟨⟨.exitNotify p.parent, by simp [htasks, heq], rfl⟩, by simp [hcodes, heq]⟩
    · rename_i hne
      obtain ⟨hex, hcode⟩ := h.zombie i q hq hz
      exact ⟨hexiting i hex, by simp [hcodes, hne, hcode]⟩
  · intro i x hi
    rw [htasks] at hi
    split at hi
    · rename_i heq
      cases hi
      have := (h.parent pid p hp).1
      simpa [PcOk, hparents, heq] using this.symm
    rename_i hne
    exact (h.pcs i x hi).keep (fun _ c q hq _ hqz => ⟨q, hzombie c q hq hqz, rfl, rfl, rfl⟩) (hmatch i)
      (fun _ _ q hq hpos => ⟨q, by simp [hprocs, hne, hq], hpos⟩) (fun c hc => hnotify c i hc) (congrFun hparents i)
  · intro x hx
    have hx : x ∈ w.returns := by
      rw [← hw'] at hx
      exact hx
    obtain ⟨hnone, hex, hcaller, code', hcode, hword⟩ := h.returned x hx
    have hne : x.child ≠ pid := by
      intro heq
      simp [heq, hp] at hnone
    exact ⟨by simp [hprocs, hne, hnone], hexiting _ hex, by rw [hparents]; exact hcaller, code',
      by simp [hcodes, hne, hcode], hword⟩
  · rw [← hw']
    exact h.once

/-- A post leaves no task blocked on the semaphore, and its count is not zero. -/
theorem Inv.post (h : w.Inv) : (w.post parent).Inv := by
  unfold World.post
  split
  · rename_i p hp
    have hevents : (w.setProcess parent (some { p with childEvents := p.childEvents + 1 })).Inv :=
      h.setEvents hp fun _ _ => Nat.succ_pos _
    by_cases hb : ∃ r, w.tasks parent = some (.waitBlocked r)
    · obtain ⟨r, ht⟩ := hb
      rw [ht]
      have hok : World.PcOk (w.setProcess parent (some { p with childEvents := p.childEvents + 1 })) parent
          (.waitEvents r) := by
        intro c _
        refine .inl ⟨{ p with childEvents := p.childEvents + 1 }, ?_, Nat.succ_pos _⟩
        simp [processes_setProcess]
      exact hevents.setPc ht rfl hok
    · have hwake : (w.tasks parent).map wake = w.tasks parent := by
        cases ht : w.tasks parent with
        | none => rfl
        | some pc =>
          cases pc with
          | waitBlocked r => exact absurd ⟨r, ht⟩ hb
          | _ => rfl
      rw [hwake, Function.update_eq_self]
      exact hevents
  · exact h

/-- After a post, the parent does not rely on the child to notify it. -/
theorem Inv.post_parent (h : w.Inv) {x : Pc} (hx : (w.post parent).tasks parent = some x) (hrun : x.exiting = false) :
    (∀ r, x ≠ .waitBlocked r) ∧ ∃ p, (w.post parent).processes parent = some p ∧ 0 < p.childEvents := by
  cases hp : w.processes parent with
  | none =>
    have hpost : w.post parent = w := by simp [World.post, hp]
    rw [hpost] at hx
    obtain ⟨p, hp', -⟩ := h.alive parent x hx hrun
    simp [hp] at hp'
  | some p =>
    simp only [World.post, hp] at hx ⊢
    constructor
    · rintro r rfl
      cases ht : w.tasks parent with
      | none => simp [ht] at hx
      | some pc => cases pc <;> simp [ht, wake] at hx
    · exact ⟨{ p with childEvents := p.childEvents + 1 }, by simp [setProcess], Nat.succ_pos _⟩

theorem post_tasks_of_ne {i : Nat} (hi : i ≠ parent) : (w.post parent).tasks i = w.tasks i := by
  unfold World.post
  split
  · simp [hi]
  · rfl

/-- The task of a zombie is done once its parent does not rely on it. -/
theorem Inv.exited (h : w.Inv) (ht : w.tasks pid = some (.exitNotify parent))
    (hblocked : ∀ r, w.tasks parent ≠ some (.waitBlocked r))
    (hevents : ∀ r, w.tasks parent = some (.waitEvents r) → ∃ p, w.processes parent = some p ∧ 0 < p.childEvents) :
    (w.setPc pid .exited).Inv := by
  have hexiting : ∀ i, (∃ x, w.tasks i = some x ∧ x.exiting = true) →
      ∃ x, (w.setPc pid .exited).tasks i = some x ∧ x.exiting = true := by
    rintro i ⟨x, hx, hex⟩
    by_cases hi : i = pid
    · exact ⟨.exited, by simp [tasks_setPc, hi], rfl⟩
    · exact ⟨x, by simp [tasks_setPc, hi, hx], hex⟩
  have hnotify : ∀ c i, i ≠ parent → w.tasks c = some (.exitNotify i) →
      (w.setPc pid .exited).tasks c = some (.exitNotify i) := by
    intro c i hi hc
    rw [tasks_setPc, if_neg, hc]
    rintro rfl
    rw [ht] at hc
    cases hc
    exact hi rfl
  constructor
  · intro i hi
    have hne : i ≠ pid := by
      have := h.le_nextPid ht
      have hi : w.nextPid < i := hi
      omega
    refine ⟨(h.fresh i hi).1, ?_⟩
    rw [tasks_setPc, if_neg hne, (h.fresh i hi).2]
  · intro i x hi
    rw [tasks_setPc] at hi
    split at hi
    · rename_i heq
      exact heq ▸ h.task_pos pid _ ht
    · exact h.task_pos i x hi
  · intro i x hi hx
    rw [tasks_setPc] at hi
    split at hi
    · cases hi
      cases hx
    · exact h.alive i x hi hx
  · exact h.parent
  · intro i q hq hz
    exact ⟨hexiting i (h.zombie i q hq hz).1, (h.zombie i q hq hz).2⟩
  · intro i x hi
    rw [tasks_setPc] at hi
    split at hi
    · cases hi
      trivial
    have hok := h.pcs i x hi
    cases x with
    | waitEvents r =>
      intro c hc
      by_cases hip : i = parent
      · subst hip
        exact .inl (hevents r hi)
      · exact (hok c hc).imp_right (hnotify c i hip)
    | waitBlocked r =>
      intro c hc
      have hip : i ≠ parent := by
        rintro rfl
        exact hblocked r hi
      exact hnotify c i hip (hok c hc)
    | _ => exact hok
  · intro x hx
    obtain ⟨hnone, hex, hrest⟩ := h.returned x hx
    exact ⟨hnone, hexiting _ hex, hrest⟩
  · exact h.once

theorem Inv.notify (h : w.Inv) (ht : w.tasks pid = some (.exitNotify parent)) : (w.notify pid parent).Inv := by
  unfold World.notify
  split
  · rename_i hcond
    have ht' : (w.post parent).tasks pid = some (.exitNotify parent) := by rw [post_tasks_of_ne (Ne.symm hcond.2), ht]
    refine h.post.exited ht' ?_ ?_
    · exact fun r hr => (h.post_parent hr rfl).1 r rfl
    · exact fun r hr => (h.post_parent hr rfl).2
  · rename_i hcond
    -- Nobody waits under pid 0, and a task that exits does not wait.
    have hnowait : ∀ x, w.tasks parent = some x → x.exiting = true := by
      intro x hx
      by_cases hp : parent = pid
      · subst hp
        obtain rfl := Option.some.inj (ht.symm.trans hx)
        rfl
      · have hzero : parent = 0 := by
          by_contra h0
          exact hcond ⟨h0, hp⟩
        exact absurd (h.task_pos parent x hx) (by omega)
    refine h.exited ht ?_ ?_
    · exact fun r hr => absurd (hnowait _ hr) (by simp [Pc.exiting])
    · exact fun r hr => absurd (hnowait _ hr) (by simp [Pc.exiting])

theorem step_inv {e : Event} (h : w.Inv) (hs : w.step e = some w') : w'.Inv := by
  cases e with
  | fork pid =>
    simp only [step] at hs
    split at hs <;> cases hs
    exact h.fork ‹_›
  | wait4 pid requested status options =>
    simp only [step] at hs
    split at hs <;> cases hs
    exact h.wait4 ‹_›
  | look pid found =>
    simp only [step] at hs
    split at hs
    · exact h.look ‹_› hs
    · cases hs
  | writeStatus pid fault =>
    simp only [step] at hs
    split at hs
    · exact h.writeStatus ‹_› hs
    · cases hs
  | reap pid =>
    simp only [step] at hs
    split at hs
    · exact h.reap ‹_› hs
    · cases hs
  | semWait pid =>
    simp only [step] at hs
    split at hs
    · exact h.semWait ‹_› hs
    · cases hs
  | exit pid code =>
    simp only [step] at hs
    split at hs
    · exact h.exit ‹_› hs
    · cases hs
  | notify pid =>
    simp only [step] at hs
    split at hs
    · cases hs
      exact h.notify ‹_›
    · cases hs

/-! ## A wait and its children -/

/-- The process has a child that is in the table and that the request matches. -/
def HasMatchingChild (w : World) (pid : Nat) (requested : Int) : Prop :=
  ∃ child p, w.processes child = some p ∧ p.parent = pid ∧ matchesPid requested child = true

/-- While the process is in a `wait4`, it has a matching child. -/
def Accompanied (w : World) (pid : Nat) : Prop :=
  ∀ pc r, w.tasks pid = some pc → pc.request = some r → w.HasMatchingChild pid r.requested

/-- If the process is in a `wait4` after the step, it was in the same one before and no child of it was taken out. -/
def Keeps (w w' : World) (pid : Nat) : Prop :=
  ∀ pc' r, w'.tasks pid = some pc' → pc'.request = some r →
    (∃ pc, w.tasks pid = some pc ∧ pc.request = some r) ∧
    ∀ child p, w.processes child = some p → p.parent = pid → ∃ p', w'.processes child = some p' ∧ p'.parent = pid

theorem Accompanied.keeps (h : w.Accompanied pid) (hk : w.Keeps w' pid) : w'.Accompanied pid := by
  intro pc' r hpc' hr
  obtain ⟨⟨pc, hpc, hreq⟩, hchildren⟩ := hk pc' r hpc' hr
  obtain ⟨child, p, hp, hparent, hmatch⟩ := h pc r hpc hreq
  obtain ⟨p', hp', hparent'⟩ := hchildren child p hp hparent
  exact ⟨child, p', hp', hparent', hmatch⟩

variable {i : Nat}

theorem keeps_setPc (hold : w.tasks i = some old) (hreq : ∀ r, pc.request = some r → old.request = some r) :
    w.Keeps (w.setPc i pc) pid := by
  intro pc' r hpc' hr
  refine ⟨?_, fun child p hp hparent => ⟨p, hp, hparent⟩⟩
  rw [tasks_setPc] at hpc'
  split at hpc'
  · rename_i heq
    cases hpc'
    exact ⟨old, heq ▸ hold, hreq r hr⟩
  · exact ⟨pc', hpc', hr⟩

/-- A process that keeps its parent leaves everyone their children. -/
theorem children_setProcess {p p' : Process} (hp : w.processes i = some p) (hparent : p'.parent = p.parent) {q : Process}
    (hq : w.processes child = some q) (hqp : q.parent = pid) :
    ∃ q', (w.setProcess i (some p')).processes child = some q' ∧ q'.parent = pid := by
  rw [processes_setProcess]
  split
  · rename_i heq
    subst heq
    obtain rfl := Option.some.inj (hp.symm.trans hq)
    exact ⟨p', rfl, hparent.trans hqp⟩
  · exact ⟨q, hq, hqp⟩

theorem keeps_setProcess {p p' : Process} (hp : w.processes i = some p) (hparent : p'.parent = p.parent) :
    w.Keeps (w.setProcess i (some p')) pid :=
  fun pc' _ hpc' hr => ⟨⟨pc', hpc', hr⟩, fun _ _ hq hqp => children_setProcess hp hparent hq hqp⟩

theorem Keeps.trans {w₁ w₂ : World} (h : w.Keeps w₁ pid) (h' : w₁.Keeps w₂ pid) : w.Keeps w₂ pid := by
  intro pc' r hpc' hr
  obtain ⟨⟨pc, hpc, hreq⟩, hchildren⟩ := h' pc' r hpc' hr
  obtain ⟨hold, hchildren'⟩ := h pc r hpc hreq
  refine ⟨hold, fun child p hp hparent => ?_⟩
  obtain ⟨p', hp', hparent'⟩ := hchildren' child p hp hparent
  exact hchildren child p' hp' hparent'

theorem look_keeps {found : Option Nat} (ht : w.tasks i = some (.waitLoop r)) (hs : w.look i r found = some w') :
    w.Keeps w' pid := by
  cases found with
  | some child =>
    simp only [World.look] at hs
    split at hs <;> cases hs
    exact keeps_setPc ht fun _ hr => hr
  | none =>
    simp only [World.look] at hs
    split at hs <;> cases hs
    refine keeps_setPc ht fun r' hr => ?_
    split at hr
    · cases hr
    · exact hr

theorem writeStatus_keeps {fault : Bool} (ht : w.tasks i = some (.waitStatus r child))
    (hs : w.writeStatus i r child fault = some w') : w.Keeps w' pid := by
  obtain ⟨c, -, rfl⟩ := Option.map_eq_some_iff.1 hs
  split
  · exact keeps_setPc ht fun _ hr => by cases hr
  split
  · exact keeps_setPc ht fun _ hr => by cases hr
  · exact keeps_setPc ht fun _ hr => by cases hr

/-- Only its parent takes a child out of the table, and it is not in a `wait4` then. -/
theorem reap_keeps {word : Option (BitVec 32)} (h : w.Inv) (ht : w.tasks i = some (.waitReap child word))
    (hs : w.reap i child word = some w') : w.Keeps w' pid := by
  obtain ⟨p, hp, hparent, -, -⟩ : w.PcOk i (.waitReap child word) := h.pcs i _ ht
  obtain ⟨c, -, rfl⟩ := Option.map_eq_some_iff.1 hs
  intro pc' r hpc' hr
  have hpc' : ((w.setProcess child none).setPc i .user).tasks pid = some pc' := hpc'
  rw [tasks_setPc] at hpc'
  split at hpc'
  · cases hpc'
    cases hr
  · rename_i hne
    refine ⟨⟨pc', hpc', hr⟩, fun c' q hq hqp => ⟨q, ?_, hqp⟩⟩
    show (w.setProcess child none).processes c' = some q
    rw [processes_setProcess, if_neg, hq]
    rintro rfl
    obtain rfl := Option.some.inj (hp.symm.trans hq)
    exact hne (hqp.symm.trans hparent)

theorem semWait_keeps (ht : w.tasks i = some (.waitEvents r)) (hs : w.semWait i r = some w') : w.Keeps w' pid := by
  obtain ⟨p, hp, rfl⟩ := Option.map_eq_some_iff.1 hs
  split
  · have hset : w.Keeps (w.setProcess i (some { p with childEvents := p.childEvents - 1 })) pid :=
      keeps_setProcess hp rfl
    exact hset.trans (keeps_setPc ht fun _ hr => hr)
  · exact keeps_setPc ht fun _ hr => hr

theorem fork_keeps (h : w.Inv) : w.Keeps (w.fork i) pid := by
  have hfresh := h.fresh (w.nextPid + 1) (Nat.lt_succ_self _)
  intro pc' r hpc' hr
  have hpc' : Function.update w.tasks (w.nextPid + 1) (some .user) pid = some pc' := hpc'
  by_cases hpid : pid = w.nextPid + 1
  · rw [hpid, Function.update_self] at hpc'
    cases hpc'
    cases hr
  · rw [Function.update_of_ne hpid] at hpc'
    refine ⟨⟨pc', hpc', hr⟩, fun c q hq hqp => ⟨q, ?_, hqp⟩⟩
    show (w.setProcess (w.nextPid + 1) _).processes c = some q
    rw [processes_setProcess, if_neg, hq]
    rintro rfl
    simp [hfresh.1] at hq

theorem exit_keeps {code : BitVec 32} (ht : w.tasks i = some .user) (hs : w.exit i code = some w') : w.Keeps w' pid := by
  obtain ⟨p, hp, rfl⟩ := Option.map_eq_some_iff.1 hs
  have hset : w.Keeps (w.setProcess i (some { p with exitCode := code, zombie := true })) pid := keeps_setProcess hp rfl
  have hreq : ∀ r, (Pc.exitNotify p.parent).request = some r → Pc.user.request = some r := fun _ hr => hr
  have hpc := hset.trans (keeps_setPc ht hreq)
  exact hpc

theorem request_wake : (wake pc).request = pc.request := by cases pc <;> rfl

theorem post_keeps : w.Keeps (w.post parent) pid := by
  intro pc' r hpc' hr
  unfold World.post at hpc' ⊢
  split at hpc'
  · rename_i p hp
    refine ⟨?_, fun _ _ hq hqp => children_setProcess hp rfl hq hqp⟩
    have hpc' : Function.update w.tasks parent ((w.tasks parent).map wake) pid = some pc' := hpc'
    by_cases hpid : pid = parent
    · subst hpid
      rw [Function.update_self] at hpc'
      obtain ⟨pc, hpc, rfl⟩ := Option.map_eq_some_iff.1 hpc'
      exact ⟨pc, hpc, by rw [← request_wake, hr]⟩
    · rw [Function.update_of_ne hpid] at hpc'
      exact ⟨pc', hpc', hr⟩
  · exact ⟨⟨pc', hpc', hr⟩, fun _ q hq hqp => ⟨q, hq, hqp⟩⟩

theorem notify_keeps (ht : w.tasks i = some (.exitNotify parent)) : w.Keeps (w.notify i parent) pid := by
  unfold World.notify
  split
  · rename_i hcond
    have ht' : (w.post parent).tasks i = some (.exitNotify parent) := by rw [post_tasks_of_ne (Ne.symm hcond.2), ht]
    exact post_keeps.trans (keeps_setPc ht' fun _ hr => by cases hr)
  · exact keeps_setPc ht fun _ hr => by cases hr

theorem wait4_keeps {status : Nat} {options : BitVec 64} (hne : i ≠ pid) : w.Keeps (w.wait4 i requested status options) pid := by
  have hrefl : w.Keeps w pid := fun pc' _ hpc' hr => ⟨⟨pc', hpc', hr⟩, fun _ q hq hqp => ⟨q, hq, hqp⟩⟩
  unfold World.wait4
  split
  · exact hrefl
  split
  · exact hrefl
  · intro pc' r hpc' hr
    rw [tasks_setPc, if_neg (Ne.symm hne)] at hpc'
    exact ⟨⟨pc', hpc', hr⟩, fun _ q hq hqp => ⟨q, hq, hqp⟩⟩

/-- **One step** of any process, unless it starts a `wait4` of this one. -/
theorem step_keeps {e : Event} (h : w.Inv) (he : e.isWaitOf pid = false) (hs : w.step e = some w') : w.Keeps w' pid := by
  cases e with
  | fork i =>
    simp only [step] at hs
    split at hs <;> cases hs
    exact fork_keeps h
  | wait4 i requested status options =>
    simp only [step] at hs
    split at hs <;> cases hs
    exact wait4_keeps (by simpa [Event.isWaitOf] using he)
  | look i found =>
    simp only [step] at hs
    split at hs
    · exact look_keeps ‹_› hs
    · cases hs
  | writeStatus i fault =>
    simp only [step] at hs
    split at hs
    · exact writeStatus_keeps ‹_› hs
    · cases hs
  | reap i =>
    simp only [step] at hs
    split at hs
    · exact reap_keeps h ‹_› hs
    · cases hs
  | semWait i =>
    simp only [step] at hs
    split at hs
    · exact semWait_keeps ‹_› hs
    · cases hs
  | exit i code =>
    simp only [step] at hs
    split at hs
    · exact exit_keeps ‹_› hs
    · cases hs
  | notify i =>
    simp only [step] at hs
    split at hs
    · cases hs
      exact notify_keeps ‹_›
    · cases hs

/-- A `wait4` of a process with a matching child. -/
theorem wait4_accompanied {status : Nat} {options : BitVec 64} (h : w.HasMatchingChild pid requested)
    (ht : w.tasks pid = some .user) : (w.wait4 pid requested status options).Accompanied pid := by
  have huser : w.Accompanied pid := by
    intro pc r hpc hr
    rw [ht] at hpc
    cases hpc
    cases hr
  unfold World.wait4
  split
  · exact huser
  split
  · exact huser
  · intro pc r hpc hr
    rw [tasks_setPc, if_pos rfl] at hpc
    cases hpc
    cases hr
    exact h

/-- The process has a matching child as long as it is blocked. -/
def BlockedWithChild (pid : Nat) (w : World) : Prop :=
  ∀ r, w.tasks pid = some (.waitBlocked r) → w.HasMatchingChild pid r.requested

/-- **A `wait4` that is called with a matching child is blocked only while there is one**, whatever the other processes do
until the process calls again. -/
theorem Inv.blockedWithChild {status : Nat} {options : BitVec 64} {es : List Event} (h : w.Inv)
    (hchild : w.HasMatchingChild pid requested) (hs : w.step (.wait4 pid requested status options) = some w')
    (hes : ∀ e ∈ es, e.isWaitOf pid = false) : Visits step (BlockedWithChild pid) w' es := by
  have hinv' := step_inv h hs
  have hstart : w'.Accompanied pid := by
    simp only [step] at hs
    split at hs <;> cases hs
    exact wait4_accompanied hchild ‹_›
  have hstep : ∀ s e s', s.Inv ∧ s.Accompanied pid → e.isWaitOf pid = false → step s e = some s' →
      s'.Inv ∧ s'.Accompanied pid :=
    fun s e s' hs he hstep => ⟨step_inv hs.1 hstep, hs.2.keeps (step_keeps hs.1 he hstep)⟩
  refine (Visits.of_step hstep ⟨hinv', hstart⟩ (Meets.of_mem fun e he _ => hes e he)).imp ?_
  exact fun s hs r hr => hs.2 _ r hr rfl

/-! ## What holds in every state -/

structure Sound (w : World) : Prop where
  /-- A child is returned at most once, to its parent and with the status of the code it exited with. -/
  once : (w.returns.map Return.child).Nodup
  owner : ∀ x ∈ w.returns, x.caller = w.parentOf x.child
  status : ∀ x ∈ w.returns, ∃ code, w.codeOf x.child = some code ∧ ∀ word, x.word = some word → word = statusWord code
  /-- A matching child that is a zombie while its parent is blocked has still to post its event, and that makes the
  parent runnable, with an event that it has not consumed. -/
  event : ∀ pid r child, w.tasks pid = some (.waitBlocked r) → w.isMatch pid r.requested child = true →
    w.tasks child = some (.exitNotify pid) ∧ ∃ w', w.step (.notify child) = some w' ∧
      w'.tasks pid = some (.waitEvents r) ∧ ∃ p, w'.processes pid = some p ∧ 0 < p.childEvents
  /-- A call with a matching child, started here, is blocked only while there is one. -/
  child : ∀ pid requested status options w', w.HasMatchingChild pid requested →
    w.step (.wait4 pid requested status options) = some w' →
      ∀ es, (∀ e ∈ es, e.isWaitOf pid = false) → Visits step (BlockedWithChild pid) w' es

/-- The notification that a blocked parent waits for. -/
theorem Inv.notify_wakes (h : w.Inv) (hb : w.tasks parent = some (.waitBlocked r))
    (ht : w.tasks child = some (.exitNotify parent)) :
    (w.notify child parent).tasks parent = some (.waitEvents r) ∧
      ∃ p, (w.notify child parent).processes parent = some p ∧ 0 < p.childEvents := by
  have hne : parent ≠ child := by
    rintro rfl
    simp [hb] at ht
  have hcond : parent ≠ 0 ∧ parent ≠ child := ⟨Nat.ne_of_gt (h.task_pos parent _ hb), hne⟩
  obtain ⟨p, hp, -⟩ := h.alive parent _ hb rfl
  have hpost : (w.post parent).tasks parent = some (.waitEvents r) := by simp [World.post, hp, hb, wake]
  simp only [World.notify, if_pos hcond, tasks_setPc, if_neg hne]
  exact ⟨hpost, (h.post_parent hpost rfl).2⟩

theorem sound_of_inv (h : w.Inv) : w.Sound := by
  refine ⟨h.once, fun x hx => (h.returned x hx).2.2.1, fun x hx => (h.returned x hx).2.2.2, ?_, ?_⟩
  · intro pid r child hb hmatch
    have ht : w.tasks child = some (.exitNotify pid) := h.pcs pid _ hb child hmatch
    refine ⟨ht, w.notify child pid, by simp [step, ht], ?_⟩
    exact h.notify_wakes hb ht
  · exact fun pid requested status options w' hchild hs es hes => h.blockedWithChild hchild hs hes

/-- **In every run, waits return each exited child once, to its parent, and no event is lost.** -/
theorem waits_sound (es : List Event) : Visits step Sound boot es :=
  (Visits.of_step (fun _ _ _ h _ hs => step_inv h hs) boot_inv (Meets.of_forall fun _ _ => trivial)).imp
    fun _ => sound_of_inv

/-- A task blocks although it has no child, and it blocks while its child is a zombie that has not posted its event. -/
theorem blocks_without_event :
    (∃ es w r, runs step boot es = some w ∧ w.tasks 1 = some (.waitBlocked r) ∧ ¬w.HasMatchingChild 1 r.requested) ∧
    ∃ es w r, runs step boot es = some w ∧ w.tasks 1 = some (.waitBlocked r) ∧ w.isMatch 1 r.requested 2 = true ∧
      ¬∃ p, w.processes 1 = some p ∧ 0 < p.childEvents := by
  constructor
  · refine ⟨[.wait4 1 (-1) 0 0, .look 1 none, .semWait 1], _, ⟨-1, 0, false⟩, rfl, by decide, ?_⟩
    rintro ⟨child, p, hp, hparent, -⟩
    have hp : boot.processes child = some p := hp
    by_cases hc : child = 1
    · obtain rfl : ⟨0, 0, false, 0⟩ = p := by simpa [boot, hc] using hp
      simp at hparent
    · simp [boot, hc] at hp
  · refine ⟨[.fork 1, .wait4 1 (-1) 0 0, .look 1 none, .exit 2 7, .semWait 1], _, ⟨-1, 0, false⟩, rfl, by decide,
      by decide, ?_⟩
    rintro ⟨p, hp, hpos⟩
    have : p = ⟨0, 0, false, 0⟩ := Option.some.inj (hp.symm.trans rfl)
    simp [this] at hpos

end World

end Koros.Proc.Wait
