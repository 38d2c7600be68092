import Koros.Lib.Places
import Mathlib.Tactic.DeriveFintype

/-!
# The kernel-thread scheduler

`kor-sched/src/lib.rs` for `n` CPUs and `m` wait queues. Each CPU has a program counter in the scheduler (`Phase`), and
`step` performs the next critical section of one CPU, so that a run is an interleaving of the critical sections of all
CPUs. Between two of them a task can be in a local variable of the code (`Phase.hand`).

A task leaves a CPU in four steps: `pickNext` takes the next task, `switchTo` records the outgoing one in the CPU's
`prev` slot, `contextSwitch` saves its registers, and `finishSwitch` with `applyTransition` moves it to its queue.
-/
set_option autoImplicit false

namespace Koros.Sched

open Koros.Lib

/-! ## Tasks, CPUs and queues -/

/-- A task: `id == 0` of the source marks the idle task of a CPU. -/
inductive TaskRef (n : Nat) where
  | idle (cpu : Fin n)
  | task (id : Nat)
deriving DecidableEq, Repr

def TaskRef.isIdle {n : Nat} : TaskRef n → Bool
  | .idle _ => true
  | .task _ => false

inductive TaskState where
  | ready
  | running
  | sleeping
  | exited
  | blocked
deriving DecidableEq, Repr

/-- The deferred transition that `finishSwitch` applies to the outgoing task. -/
inductive Action (m : Nat) where
  | toReady
  | toSleep
  | toZombie
  | toWait (wq : Fin m)
deriving DecidableEq, Repr

/-- Where a task goes on when the call of `schedule` it is in returns: to its caller, to the count check of a semaphore,
or round the loop of `exit`. -/
inductive Resume (m : Nat) where
  | caller
  | semWait (wq : Fin m)
  | exit
deriving DecidableEq, Repr

/-- The position of a CPU in the scheduler's code. -/
inductive Phase (n m : Nat) where
  /-- Running the current task's own code. -/
  | run
  /-- `schedule` was called. -/
  | schedule (action : Action m)
  /-- `pick_next` returned `next`. -/
  | picked (next : TaskRef n) (action : Action m)
  /-- `current` and `prev` are set; the outgoing context is not saved yet. -/
  | switching
  /-- `context_switch` returned on the incoming task. -/
  | finish
  /-- `finish_switch` took `prev` out of the slot. -/
  | transition (prev : TaskRef n) (action : Action m)
  /-- Tasks taken off a wait queue, to be made ready. -/
  | waking (tasks : List (TaskRef n))
  /-- `timer_tick` at index `i` of the sleepers. -/
  | ticking (now i : Nat)
  /-- `timer_tick` removed `task` from the sleepers. -/
  | tickWake (now i : Nat) (task : TaskRef n)
deriving DecidableEq, Repr

/-- Ticks a task may run before it is preempted. -/
def timeSlice : Nat := 5

/-- Timer ticks per second. -/
def tickHz : Nat := 100

structure PerCpu (n m : Nat) (C : Type) where
  current : Option (TaskRef n)
  idle : Option (TaskRef n)
  prev : Option (TaskRef n × Action m)
  slice : Nat
  phase : Phase n m
  /-- The task on whose stack the CPU executes. -/
  stack : TaskRef n
  /-- The CPU's registers. -/
  regs : C

structure WaitQueue (n : Nat) where
  lock : Bool
  list : List (TaskRef n)
deriving DecidableEq, Repr

/-- A counting semaphore; a wait queue on its own is one whose count is not used. The count is an `isize`. -/
structure Semaphore (n : Nat) where
  wq : WaitQueue n
  count : Int
deriving DecidableEq, Repr

structure Sys (n m : Nat) (C : Type) where
  cpus : Fin n → PerCpu n m C
  readyQueue : List (TaskRef n)
  sleepers : List (TaskRef n)
  /-- The lock of `SLEEPERS`, held over the loop of `timer_tick`. -/
  sleepersLock : Bool
  zombies : List (TaskRef n)
  sems : Fin m → Semaphore n
  schedReady : Bool
  ticks : Nat
  nextId : Nat
  /-- Tasks that `Task::new` has built and `spawn_configured` has not pushed yet. -/
  unborn : List Nat
  state : TaskRef n → TaskState
  wakeTick : TaskRef n → Nat
  resume : TaskRef n → Resume m
  /-- The saved register context of each task. -/
  ctx : TaskRef n → C
  /-- The registers each task had when it last executed: what `ctx` must hold before another CPU may load it. -/
  live : TaskRef n → C
  /-- Tasks freed by `reap`. -/
  reclaimed : List (TaskRef n)

section Ops

variable {n m : Nat} {C : Type}

namespace Sys

/-! ## State updates -/

def setCpu (s : Sys n m C) (c : Fin n) (f : PerCpu n m C → PerCpu n m C) : Sys n m C :=
  { s with cpus := Function.update s.cpus c (f (s.cpus c)) }

def setPhase (s : Sys n m C) (c : Fin n) (ph : Phase n m) : Sys n m C := s.setCpu c fun cpu => { cpu with phase := ph }

def setState (s : Sys n m C) (t : TaskRef n) (st : TaskState) : Sys n m C :=
  { s with state := Function.update s.state t st }

def setResume (s : Sys n m C) (t : TaskRef n) (r : Resume m) : Sys n m C :=
  { s with resume := Function.update s.resume t r }

def setSem (s : Sys n m C) (w : Fin m) (sem : Semaphore n) : Sys n m C :=
  { s with sems := Function.update s.sems w sem }

def pushReady (s : Sys n m C) (t : TaskRef n) : Sys n m C := { s with readyQueue := s.readyQueue ++ [t] }

def pushSleeper (s : Sys n m C) (t : TaskRef n) : Sys n m C := { s with sleepers := s.sleepers ++ [t] }

def pushZombie (s : Sys n m C) (t : TaskRef n) : Sys n m C := { s with zombies := s.zombies ++ [t] }

/-! ## The switch -/

/-- `schedule`: the head of the ready queue, or the CPU's idle task. -/
def pickNext (s : Sys n m C) (c : Fin n) (action : Action m) : Option (Sys n m C) :=
  match s.readyQueue with
  | t :: rest => some ({ s with readyQueue := rest }.setPhase c (.picked t action))
  | [] =>
    match (s.cpus c).idle with
    | some t => some (s.setPhase c (.picked t action))
    | none => none

/-- `schedule`: record the outgoing task and install the incoming one; an idle task that yields with nothing else
ready keeps running. -/
def switchTo (s : Sys n m C) (c : Fin n) (next : TaskRef n) (action : Action m) : Option (Sys n m C) :=
  match (s.cpus c).current with
  | none => none
  | some prev =>
    if prev = next ∧ action = .toReady then some (s.setPhase c .run)
    else some ((s.setState next .running).setCpu c fun cpu =>
      { cpu with prev := some (prev, action), current := some next, slice := timeSlice, phase := .switching })

/-- `context_switch`: save the registers into the outgoing task, load those of the incoming one. -/
def contextSwitch (s : Sys n m C) (c : Fin n) : Option (Sys n m C) :=
  match (s.cpus c).prev, (s.cpus c).current with
  | some (prev, _), some next =>
    let ctx := Function.update s.ctx prev (s.cpus c).regs
    some ({ s with ctx := ctx }.setCpu c fun cpu => { cpu with stack := next, regs := ctx next, phase := .finish })
  | _, _ => none

/-- `finish_switch`: take the outgoing task out of the slot. -/
def finishSwitch (s : Sys n m C) (c : Fin n) : Sys n m C :=
  match (s.cpus c).prev with
  | some (prev, action) => s.setCpu c fun cpu => { cpu with prev := none, phase := .transition prev action }
  | none => s.setPhase c .run

/-- `finish_switch`: apply the deferred transition. -/
def applyTransition (s : Sys n m C) (c : Fin n) (prev : TaskRef n) : Action m → Option (Sys n m C)
  | .toReady =>
    if prev.isIdle then some (s.setPhase c .run)
    else some (((s.setState prev .ready).pushReady prev).setPhase c .run)
  | .toSleep =>
    if s.sleepersLock then none
    else some (((s.setState prev .sleeping).pushSleeper prev).setPhase c .run)
  | .toZombie => some (((s.setState prev .exited).pushZombie prev).setPhase c .run)
  | .toWait w =>
    let sem := s.sems w
    -- the queue's lock is held since the task decided to block, and released here
    some (((s.setState prev .blocked).setSem w
      { sem with wq := { list := sem.wq.list ++ [prev], lock := false } }).setPhase c .run)

/-- `make_ready` for the tasks taken off a queue, one at a time. -/
def wakeNext (s : Sys n m C) (c : Fin n) : List (TaskRef n) → Sys n m C
  | [] => s.setPhase c .run
  | t :: ts => ((s.setState t .ready).pushReady t).setPhase c (.waking ts)

/-- One iteration of the loop of `timer_tick`, and what follows the loop. -/
def tickStep (s : Sys n m C) (c : Fin n) (now i : Nat) : Sys n m C :=
  match s.sleepers[i]? with
  | some t =>
    if s.wakeTick t ≤ now then { s with sleepers := swapRemove s.sleepers i }.setPhase c (.tickWake now i t)
    else s.setPhase c (.ticking now (i + 1))
  | none =>
    { s with sleepersLock := false }.setCpu c fun cpu => { cpu with slice := cpu.slice - 1, phase := .run }

/-- The next critical section of a CPU that is inside the scheduler. -/
def advance (s : Sys n m C) (c : Fin n) : Option (Sys n m C) :=
  match (s.cpus c).phase with
  | .run => none
  | .schedule action => s.pickNext c action
  | .picked next action => s.switchTo c next action
  | .switching => s.contextSwitch c
  | .finish => some (s.finishSwitch c)
  | .transition prev action => s.applyTransition c prev action
  | .waking tasks => some (s.wakeNext c tasks)
  | .ticking now i => some (s.tickStep c now i)
  | .tickWake now i t => some (((s.setState t .ready).pushReady t).setPhase c (.ticking now i))

/-! ## The calls -/

/-- `init_this_cpu`: the CPU's execution becomes its idle task. -/
def initThisCpu (s : Sys n m C) (c : Fin n) : Sys n m C :=
  s.setCpu c fun cpu => { cpu with idle := some (.idle c), current := some (.idle c) }

/-- `Task::new`, with the context that `task_context_init` builds. -/
def taskNew (s : Sys n m C) (ctx : C) : Sys n m C :=
  let t := .task s.nextId
  { s.setState t .ready with
    nextId := s.nextId + 1, unborn := s.nextId :: s.unborn, wakeTick := Function.update s.wakeTick t 0,
    resume := Function.update s.resume t .caller, ctx := Function.update s.ctx t ctx,
    live := Function.update s.live t ctx }

/-- The push that ends `spawn_configured`. -/
def spawn (s : Sys n m C) (id : Nat) : Option (Sys n m C) :=
  if id ∈ s.unborn then some ({ s with unborn := s.unborn.erase id }.pushReady (.task id)) else none

def yieldNow (s : Sys n m C) (c : Fin n) : Sys n m C := s.setPhase c (.schedule .toReady)

def preempt (s : Sys n m C) (c : Fin n) : Sys n m C :=
  if s.schedReady ∧ (s.cpus c).slice = 0 then (s.setCpu c fun cpu => { cpu with slice := timeSlice }).yieldNow c else s

/-- The tick at which a sleep of `ms` milliseconds that read the tick count `ticks` ends, in 64-bit arithmetic. -/
def sleepUntil (ticks ms : Nat) : Nat := (ticks + max (ms * tickHz % 2 ^ 64 / 1000) 1) % 2 ^ 64

/-- `sleep`, with the tick count it read before it disabled interrupts. -/
def sleep (s : Sys n m C) (c : Fin n) (ticks ms : Nat) : Option (Sys n m C) :=
  match (s.cpus c).current with
  | none => none
  | some task =>
    some ({ s with wakeTick := Function.update s.wakeTick task (sleepUntil ticks ms) }.setPhase c (.schedule .toSleep))

def exit (s : Sys n m C) (c : Fin n) : Sys n m C :=
  (s.setResume (s.cpus c).stack .exit).setPhase c (.schedule .toZombie)

/-- One round of `Semaphore::wait`: take a unit, or block with the queue's lock held. -/
def semWait (s : Sys n m C) (c : Fin n) (w : Fin m) : Option (Sys n m C) :=
  let sem := s.sems w
  let task := (s.cpus c).stack
  if sem.wq.lock then none
  else if 0 < sem.count then some ((s.setResume task .caller).setSem w { sem with count := sem.count - 1 })
  else some (((s.setResume task (.semWait w)).setSem w { sem with wq := { sem.wq with lock := true } }).setPhase c
    (.schedule (.toWait w)))

/-- `Semaphore::post`: the increment wraps in a release build. -/
def semPost (s : Sys n m C) (c : Fin n) (w : Fin m) : Option (Sys n m C) :=
  let sem := s.sems w
  if sem.wq.lock then none
  else some ((s.setSem w { count := Int.bmod (sem.count + 1) (2 ^ 64), wq := { sem.wq with list := sem.wq.list.tail } }).setPhase c
    (.waking sem.wq.list.head?.toList))

/-- `WaitQueue::wait_if` with the predicate's answer; `WaitQueue::wait` is the answer `true`. -/
def waitIf (s : Sys n m C) (c : Fin n) (w : Fin m) (shouldWait : Bool) : Option (Sys n m C) :=
  let sem := s.sems w
  if sem.wq.lock then none
  else if !shouldWait then some s
  else some ((s.setSem w { sem with wq := { sem.wq with lock := true } }).setPhase c (.schedule (.toWait w)))

def wakeOne (s : Sys n m C) (c : Fin n) (w : Fin m) : Option (Sys n m C) :=
  let sem := s.sems w
  if sem.wq.lock then none
  else some ((s.setSem w { sem with wq := { sem.wq with list := sem.wq.list.tail } }).setPhase c
    (.waking sem.wq.list.head?.toList))

def wakeAll (s : Sys n m C) (c : Fin n) (w : Fin m) : Option (Sys n m C) :=
  let sem := s.sems w
  if sem.wq.lock then none
  else some ((s.setSem w { sem with wq := { sem.wq with list := [] } }).setPhase c (.waking sem.wq.list))

/-- `timer_tick`, up to its loop. -/
def timerTick (s : Sys n m C) (c : Fin n) : Option (Sys n m C) :=
  if s.schedReady then
    if s.sleepersLock then none else some ({ s with sleepersLock := true }.setPhase c (.ticking s.ticks 0))
  else some s

def reap (s : Sys n m C) : Sys n m C := { s with zombies := [], reclaimed := s.zombies ++ s.reclaimed }

/-- The task a CPU executes on computes: the registers change. -/
def compute (s : Sys n m C) (c : Fin n) (regs : C) : Sys n m C :=
  { s.setCpu c fun cpu => { cpu with regs := regs } with live := Function.update s.live (s.cpus c).stack regs }

end Sys

/-! ## Steps and runs -/

/-- What the code running on a CPU can do. -/
inductive Call (m : Nat) (C : Type) where
  /-- `init` on the boot CPU. -/
  | init
  /-- `init_this_cpu` on another CPU. -/
  | initThisCpu
  | taskNew (ctx : C)
  | spawn (id : Nat)
  | yieldNow
  | preempt
  | sleep (ticks ms : Nat)
  | exit
  | semWait (wq : Fin m)
  | semPost (wq : Fin m)
  | waitIf (wq : Fin m) (shouldWait : Bool)
  | wakeOne (wq : Fin m)
  | wakeAll (wq : Fin m)
  | timerTick
  | reap

inductive Event (m : Nat) (C : Type) where
  /-- The code running on the CPU calls the scheduler. -/
  | call (call : Call m C)
  /-- The CPU, inside the scheduler, performs its next critical section. -/
  | advance
  /-- The CPU computes. -/
  | compute (regs : C)
  /-- The clock advances. -/
  | clock

namespace Sys

/-- A call by code with nothing left to finish in the scheduler. -/
def callFresh (s : Sys n m C) (c : Fin n) : Call m C → Option (Sys n m C)
  | .init =>
    if (s.cpus c).current = none ∧ !s.schedReady then some { s.initThisCpu c with schedReady := true } else none
  | .initThisCpu => if (s.cpus c).current = none ∧ s.schedReady then some (s.initThisCpu c) else none
  | .taskNew ctx => some (s.taskNew ctx)
  | .spawn id => s.spawn id
  | .yieldNow => some (s.yieldNow c)
  | .preempt => some (s.preempt c)
  | .sleep ticks ms => if ticks ≤ s.ticks then s.sleep c ticks ms else none
  | .exit => some (s.exit c)
  | .semWait w => s.semWait c w
  | .semPost w => s.semPost c w
  | .waitIf w b => s.waitIf c w b
  | .wakeOne w => s.wakeOne c w
  | .wakeAll w => s.wakeAll c w
  | .timerTick => s.timerTick c
  | .reap => some s.reap

/-- A call by the code that runs on CPU `c`. A task that resumed inside `Semaphore::wait` or `exit` goes round that
loop before it runs anything else. -/
def call (s : Sys n m C) (c : Fin n) (call : Call m C) : Option (Sys n m C) :=
  if (s.cpus c).phase = .run then
    match s.resume (s.cpus c).stack with
    | .caller => s.callFresh c call
    | .exit =>
      match call with
      | .exit => some (s.exit c)
      | _ => none
    | .semWait w =>
      match call with
      | .semWait w' => if w = w' then s.semWait c w else none
      | _ => none
  else none

/-- One step of CPU `c`; `none` when the CPU has to wait for a lock, or the step is not the one its code makes. -/
def step (s : Sys n m C) (c : Fin n) : Event m C → Option (Sys n m C)
  | .call k => s.call c k
  | .advance => s.advance c
  | .compute regs => some (s.compute c regs)
  | .clock => some { s with ticks := s.ticks + 1 }

/-- The machine before `init`: every CPU runs its boot code, and semaphore `w` starts with `counts w`. -/
def boot (counts : Fin m → Int) (regs : Fin n → C) (zero : C) : Sys n m C where
  cpus := fun c => ⟨none, none, none, timeSlice, .run, .idle c, regs c⟩
  readyQueue := []
  sleepers := []
  sleepersLock := false
  zombies := []
  sems := fun w => ⟨⟨false, []⟩, counts w⟩
  schedReady := false
  ticks := 0
  nextId := 1
  unborn := []
  state := fun _ => .ready
  wakeTick := fun _ => 0
  resume := fun _ => .caller
  ctx := fun _ => zero
  live := fun _ => zero
  reclaimed := []

/-- Run a list of steps, each by the CPU named with it. -/
def run (s : Sys n m C) : List (Fin n × Event m C) → Option (Sys n m C)
  | [] => some s
  | (c, e) :: es => (s.step c e).bind fun s => s.run es

end Sys

end Ops

end Koros.Sched
