import Koros.Sched.Model

/-!
# Processes over the scheduler

`apps/korix/src/sched/mod.rs` with the parts of `syscall/mod.rs` that create and reap processes: `sys_clone`,
`fork_child_entry`, `exit_current` and `sys_wait4`, over the scheduler of `kor-sched` on `n` CPUs. The code of a task
advances by critical sections (`Pc` is its position), so a run is an interleaving of the sections of all CPUs.

A process is shared through `Arc<Mutex<ProcessState>>`. The strong count is kept as the list of its holders: the process
table, or a local variable on the kernel stack of a task. The address space goes with the last holder; a kernel stack
that is freed without being unwound drops nothing.
-/

set_option autoImplicit false

namespace Koros.Proc

open Koros.Sched

/-! ## Address spaces and processes -/

/-- `AddressSpace`: the frames are those of the page tables and the user pages, which
`destroy_address_space` returns to the allocator. -/
structure Space where
  root : Nat
  frames : List Nat
  owned : Bool
  root_mem : root ∈ frames

/-- `ProcessState`, as far as exit and wait read it; `zombie` is `state == STATE_ZOMBIE`. -/
structure ProcessState (m : Nat) where
  pid : Nat
  parent : Nat
  addressSpace : Option Space
  exitCode : Int
  zombie : Bool
  childEvents : Fin m
  clearChildTid : Nat

/-- Where a strong reference to a process is kept. -/
inductive Holder (n : Nat) where
  | table
  | stack (task : TaskRef n)
  deriving DecidableEq

/-- An `Arc<Mutex<ProcessState>>`. -/
structure Process (n m : Nat) where
  state : ProcessState m
  refs : List (Holder n)

/-- The position of a task in the process code. The numbers `child`, `reaped` and `current` are processes, held by
local variables of the same name. -/
inductive Pc where
  /-- `fork_child_entry` is about to run. -/
  | entry
  /-- User code, or kernel code that holds no process. -/
  | user
  /-- `sys_clone`: `alloc_process` returned. -/
  | forkSpawn (child : Nat)
  /-- `spawn_configured`: the task is built and associated, not pushed. -/
  | forkPush (child id : Nat)
  | forkReturn (child : Nat)
  /-- The head of the loop of `sys_wait4`. -/
  | waitLoop (requested : Int) (nohang : Bool)
  /-- `matching_zombie` returned `child`. -/
  | waitStatus (child : Nat)
  | waitReap (child childPid : Nat)
  | waitDrop (child childPid reaped : Nat)
  | waitReturn (child childPid : Nat)
  /-- `exit_current`: `current` is looked up. -/
  | exitMark (code : Int) (current : Nat)
  | exitTid (current pid parent tid : Nat) (root : Option Nat)
  | exitNotify (current pid parent : Nat)
  /-- In `kor_sched::exit`. -/
  | exited (current : Nat)

/-- The positions at which a task may resume inside a loop of the scheduler: `events.wait()` and `exit`. -/
def Pc.loops : Pc → Bool
  | .waitLoop _ _ => true
  | .exited _ => true
  | _ => false

/-- The kernel: scheduler, process tables, the processes themselves, the root each task is bound to, the root installed
on each CPU and how often each frame has been returned. -/
structure World (n m : Nat) where
  sched : Sys n m Unit
  /-- `PROCESSES`. -/
  processes : Nat → Option Nat
  nextPid : Nat
  /-- `TASK_PROCESSES`. -/
  taskProcesses : Nat → Option Nat
  heap : Nat → Option (Process n m)
  nextObj : Nat
  taskRoot : TaskRef n → Nat
  cpuRoot : Fin n → Nat
  pc : TaskRef n → Pc
  returned : Nat → Nat
  /-- The pids `sys_wait4` has returned. -/
  waited : List Nat

section Ops

variable {n m : Nat}

namespace World

/-! ## References -/

def setPc (w : World n m) (t : TaskRef n) (pc : Pc) : World n m := { w with pc := Function.update w.pc t pc }

def setProcess (w : World n m) (o : Nat) (p : Option (Process n m)) : World n m :=
  { w with heap := Function.update w.heap o p }

/-- `Arc::clone` into a local of task `t`. -/
def clone (w : World n m) (t : TaskRef n) (o : Nat) : Option (World n m) :=
  match w.heap o with
  | some p => some (w.setProcess o (some { p with refs := .stack t :: p.refs }))
  | none => none

/-- The last reference is gone: `AddressSpace::drop`, on CPU `c`. The assertion refuses a root that is active there. -/
def release (w : World n m) (c : Fin n) (o : Nat) (p : Process n m) : Option (World n m) :=
  match p.state.addressSpace with
  | some space =>
    if space.owned then
      if w.cpuRoot c = space.root then none
      else some { w.setProcess o none with returned := fun f => w.returned f + space.frames.count f }
    else some (w.setProcess o none)
  | none => some (w.setProcess o none)

/-- Drop a local of task `t`. -/
def drop (w : World n m) (c : Fin n) (t : TaskRef n) (o : Nat) : Option (World n m) :=
  match w.heap o with
  | some p =>
    let p' := { p with refs := p.refs.erase (.stack t) }
    if p'.refs = [] then w.release c o p' else some (w.setProcess o (some p'))
  | none => none

/-! ## Lookups -/

def currentPid (w : World n m) : TaskRef n → Option Nat
  | .task id => w.taskProcesses id
  | .idle _ => none

def currentProcess (w : World n m) (t : TaskRef n) : Option Nat := (w.currentPid t).bind w.processes

/-- The state of a process in the table. -/
def lookup (w : World n m) (pid : Nat) : Option (ProcessState m) :=
  ((w.processes pid).bind w.heap).map Process.state

/-- `matching_zombie`: the first entry of the table, in the order of pids. -/
def matchingZombie (w : World n m) (parent : Nat) (requested : Int) : Option Nat :=
  (List.range (w.nextPid + 1)).find? fun pid =>
    match w.lookup pid with
    | some p => p.parent == parent && p.zombie && (requested == -1 || (decide (requested > 0) && (p.pid : Int) == requested))
    | none => false

/-! ## `sys_clone` -/

/-- `alloc_process` for a space that `AddressSpace::fork` made. -/
def allocProcess (w : World n m) (t : TaskRef n) (space : Space) (tid : Nat) (events : Fin m) : Option (World n m) :=
  match w.currentPid t with
  | none => none
  | some parent =>
    let pid := w.nextPid + 1
    let state : ProcessState m := ⟨pid, parent, some space, 0, false, events, tid⟩
    some ({ w.setProcess w.nextObj (some ⟨state, [.table, .stack t]⟩) with
      nextPid := pid, nextObj := w.nextObj + 1,
      processes := Function.update w.processes pid (some w.nextObj) }.setPc t (.forkSpawn w.nextObj))

/-- `spawn_process` up to the push: the task is bound to the root and associated with the pid. -/
def spawnProcess (w : World n m) (t : TaskRef n) (child : Nat) : Option (World n m) :=
  match w.heap child with
  | none => none
  | some p =>
    match p.state.addressSpace with
    | none => none
    | some space =>
      let id := w.sched.nextId
      some (({ w with
        sched := w.sched.taskNew (), taskRoot := Function.update w.taskRoot (.task id) space.root,
        taskProcesses := Function.update w.taskProcesses id (some p.state.pid) }.setPc (.task id) .entry).setPc t
          (.forkPush child id))

def pushTask (w : World n m) (t : TaskRef n) (child id : Nat) : Option (World n m) :=
  (w.sched.spawn id).map fun sched => { w with sched := sched }.setPc t (.forkReturn child)

/-- `fork_child_entry`: the process is looked up, its root activated, and the task goes to user mode for good. -/
def forkChildEntry (w : World n m) (c : Fin n) (t : TaskRef n) : Option (World n m) :=
  match w.currentProcess t with
  | none => none
  | some o =>
    match w.heap o with
    | none => none
    | some p =>
      let root := match p.state.addressSpace with
        | some space => space.root
        | none => w.cpuRoot c
      (w.clone t o).map fun w => { w with cpuRoot := Function.update w.cpuRoot c root }.setPc t .user

/-! ## `exit_current` -/

def exitCurrent (w : World n m) (t : TaskRef n) (code : Int) : Option (World n m) :=
  match w.currentProcess t with
  | none => none
  | some o => (w.clone t o).map fun w => w.setPc t (.exitMark code o)

/-- The process becomes a zombie; what follows works on copies of its fields. -/
def exitMark (w : World n m) (t : TaskRef n) (code : Int) (o : Nat) : Option (World n m) :=
  match w.heap o with
  | none => none
  | some p =>
    let state := { p.state with exitCode := code, zombie := true }
    some ((w.setProcess o (some { p with state := state })).setPc t
      (.exitTid o state.pid state.parent state.clearChildTid (state.addressSpace.map Space.root)))

/-- `clear_child_tid`: the root of the process is activated and stays so. -/
def exitTid (w : World n m) (c : Fin n) (t : TaskRef n) (o pid parent tid : Nat) (root : Option Nat) : World n m :=
  let w := match root with
    | some root => if tid ≠ 0 then { w with cpuRoot := Function.update w.cpuRoot c root } else w
    | none => w
  w.setPc t (.exitNotify o pid parent)

def exitNotify (w : World n m) (c : Fin n) (t : TaskRef n) (o pid parent : Nat) : Option (World n m) :=
  let w' := w.setPc t (.exited o)
  if parent ≠ 0 ∧ parent ≠ pid then
    match w.lookup parent with
    | some p => (w.sched.call c (.semPost p.childEvents)).map fun sched => { w' with sched := sched }
    | none => some w'
  else some w'

/-! ## `sys_wait4` -/

/-- `sys_wait4` is called; what it refuses returns at once. -/
def sysWait4 (w : World n m) (t : TaskRef n) (requested : Int) (options : BitVec 64) : World n m :=
  if options &&& ~~~11#64 ≠ 0 then w
  else if requested = 0 ∨ requested < -1 then w
  else
    match w.currentPid t with
    | none => w
    | some parent =>
      -- `child_wait_queue`
      if (w.lookup parent).isNone then w else w.setPc t (.waitLoop requested (options &&& 1#64 ≠ 0))

/-- `events.wait()`, one round of the semaphore's loop. -/
def waitEvents (w : World n m) (c : Fin n) (pid : Nat) : Option (World n m) :=
  match w.lookup pid with
  | none => none
  | some p => (w.sched.call c (.semWait p.childEvents)).map fun sched => { w with sched := sched }

/-- The head of the loop; a task that was blocked first goes round the loop of the semaphore. -/
def waitLoop (w : World n m) (c : Fin n) (t : TaskRef n) (requested : Int) (nohang : Bool) : Option (World n m) :=
  match w.currentPid t with
  | none => none
  | some parent =>
    if w.sched.resume t = .caller then
      match (w.matchingZombie parent requested).bind w.processes with
      | some child => (w.clone t child).map fun w => w.setPc t (.waitStatus child)
      | none => if nohang then some (w.setPc t .user) else w.waitEvents c parent
    else w.waitEvents c parent

/-- The pid is read and the status written to the user; a fault ends the call. -/
def waitStatus (w : World n m) (c : Fin n) (t : TaskRef n) (child : Nat) (fault : Bool) : Option (World n m) :=
  match w.heap child with
  | none => none
  | some p =>
    if fault then (w.drop c t child).map fun w => w.setPc t .user
    else some (w.setPc t (.waitReap child p.state.pid))

/-- `reap`: the table's reference moves to the local `reaped`. -/
def waitReap (w : World n m) (t : TaskRef n) (child childPid : Nat) : Option (World n m) :=
  match w.processes childPid with
  | none => none
  | some reaped =>
    match w.heap reaped with
    | none => none
    | some p =>
      some ({ w.setProcess reaped (some { p with refs := .stack t :: p.refs.erase .table }) with
        processes := Function.update w.processes childPid none }.setPc t (.waitDrop child childPid reaped))

def waitDrop (w : World n m) (c : Fin n) (t : TaskRef n) (child childPid reaped : Nat) : Option (World n m) :=
  (w.drop c t reaped).map fun w => w.setPc t (.waitReturn child childPid)

/-- `child` is dropped on return. -/
def waitReturn (w : World n m) (c : Fin n) (t : TaskRef n) (child childPid : Nat) : Option (World n m) :=
  (w.drop c t child).map fun w => { w with waited := childPid :: w.waited }.setPc t .user

end World

/-! ## Steps and runs -/

inductive Event (m : Nat) where
  /-- The scheduler is called for another reason: a tick, a yield, the idle loop, a kernel thread. -/
  | kernel (call : Call m Unit)
  /-- The CPU performs its next critical section inside the scheduler. -/
  | advance
  | clock
  | fork (space : Space) (tid : Nat) (events : Fin m)
  | wait4 (requested : Int) (options : BitVec 64)
  | exit (code : Int)
  /-- The next section of the process code; `fault` is the answer of `write_user`. -/
  | go (fault : Bool)

namespace World

/-- The switch installs the root of the incoming task. -/
def advance (w : World n m) (c : Fin n) : Option (World n m) :=
  (w.sched.advance c).map fun sched =>
    match (w.sched.cpus c).phase, (w.sched.cpus c).current with
    | .switching, some next =>
      { w with sched := sched, cpuRoot := Function.update w.cpuRoot c (w.taskRoot next) }
    | _, _ => { w with sched := sched }

/-- The next section of the process code of task `t`, which runs on CPU `c`. -/
def go (w : World n m) (c : Fin n) (t : TaskRef n) (fault : Bool) : Option (World n m) :=
  match w.pc t with
  | .entry => w.forkChildEntry c t
  | .user => none
  | .forkSpawn child => w.spawnProcess t child
  | .forkPush child id => w.pushTask t child id
  | .forkReturn child => (w.drop c t child).map fun w => w.setPc t .user
  | .waitLoop requested nohang => w.waitLoop c t requested nohang
  | .waitStatus child => w.waitStatus c t child fault
  | .waitReap child childPid => w.waitReap t child childPid
  | .waitDrop child childPid reaped => w.waitDrop c t child childPid reaped
  | .waitReturn child childPid => w.waitReturn c t child childPid
  | .exitMark code current => w.exitMark t code current
  | .exitTid current pid parent tid root => some (w.exitTid c t current pid parent tid root)
  | .exitNotify current pid parent => w.exitNotify c t current pid parent
  | .exited _ => (w.sched.call c .exit).map fun sched => { w with sched := sched }

/-- A system call of task `t`, from user code. -/
def enter (w : World n m) (t : TaskRef n) : Event m → Option (World n m)
  | .fork space tid events => w.allocProcess t space tid events
  | .wait4 requested options => some (w.sysWait4 t requested options)
  | .exit code => w.exitCurrent t code
  | _ => none

/-- Interrupts are off in `kor_sched::exit`, so nothing else of the scheduler is called there. -/
def kernel (w : World n m) (c : Fin n) (k : Call m Unit) : Option (World n m) :=
  match w.pc (w.sched.cpus c).stack with
  | .exited _ => none
  | _ => (w.sched.call c k).map fun sched => { w with sched := sched }

def step (w : World n m) (c : Fin n) (e : Event m) : Option (World n m) :=
  let t := (w.sched.cpus c).stack
  match e with
  | .kernel k => w.kernel c k
  | .advance => w.advance c
  | .clock => some { w with sched := { w.sched with ticks := w.sched.ticks + 1 } }
  | .go fault =>
    if (w.sched.cpus c).phase = .run ∧ (w.sched.resume t = .caller ∨ (w.pc t).loops) then w.go c t fault else none
  | e =>
    if (w.sched.cpus c).phase = .run ∧ w.sched.resume t = .caller then
      match w.pc t with
      | .user => w.enter t e
      | _ => none
    else none

def run (w : World n m) : List (Fin n × Event m) → Option (World n m)
  | [] => some w
  | (c, e) :: es =>
    match w.step c e with
    | some w' => w'.run es
    | none => none

/-- After `sched::init` and the spawn of init: process 1 with its space, its task in the ready queue, every CPU in its
idle task under the boot root. -/
def boot (space : Space) (bootRoot : Nat) (events : Fin m) : World n m where
  sched := { Sys.boot (fun _ => 0) (fun _ => ()) () with
    cpus := fun c => ⟨some (.idle c), some (.idle c), none, timeSlice, .run, .idle c, ()⟩
    readyQueue := [.task 1], schedReady := true, nextId := 2 }
  processes := fun pid => if pid = 1 then some 0 else none
  nextPid := 1
  taskProcesses := fun id => if id = 1 then some 1 else none
  heap := fun o => if o = 0 then some ⟨⟨1, 0, some space, 0, false, events, 0⟩, [.table]⟩ else none
  nextObj := 1
  taskRoot := fun t => if t = .task 1 then space.root else bootRoot
  cpuRoot := fun _ => bootRoot
  pc := fun _ => .user
  returned := fun _ => 0
  waited := []

end World

end Ops

end Koros.Proc
