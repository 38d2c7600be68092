import Koros.Lib.Runs
import Koros.Signal.Deliver

/-!
# The signal calls of any number of processes

The system calls of `korix/src/syscall/mod.rs` that touch a process's signal state, and the ways in and out of the kernel
of the three trap dispatchers (`korix/src/arch/*/trap.rs`). A `World` is the process table; an `Event` is a system call
that begins, what it does, the end of a wait, or the return to user mode. Everything a system call outside this file can
do to a process here is to change its memory and to return a number (`Call.other`).

A process comes into the kernel through `syscall_entry` of x86_64 (`Entry.native`) or through `ecall`, `svc` and
`int 0x80` (`Entry.gate`). A forked child starts in the kernel (`Entry.fork`).
-/
set_option autoImplicit false

namespace Koros.Signal

open Koros.Lib

/-! ## User structures -/

section User

variable {F : Type}

/-- `read_user` of `size` words. -/
def Port.readUser (P : Port F) (m : UserMem) (address size : Nat) : Option (Nat → Word) :=
  if m.checkRange P.addressLimit address (8 * size) false then some (m.word address) else none

/-- `write_user` of `size` words. -/
def Port.writeUser (P : Port F) (m : UserMem) (address size : Nat) (words : Nat → Word) : Option UserMem :=
  if m.checkRange P.addressLimit address (8 * size) true then some (m.write address size words) else none

end User

/-- The size of `UserSignalAction`, in words. -/
def userActionSize : Arch → Nat
  | .riscv64 => 3
  | .aarch64 | .x86_64 => 4

/-- `kernel_signal_action`, from the words of a `UserSignalAction`. -/
def kernelSignalAction (arch : Arch) (words : Nat → Word) : SignalAction :=
  match arch with
  | .riscv64 => ⟨words 0, words 1, 0, words 2⟩
  | .aarch64 | .x86_64 => ⟨words 0, words 1, words 2, words 3⟩

/-- `user_signal_action`. -/
def userSignalAction (arch : Arch) (action : SignalAction) (i : Nat) : Word :=
  match arch with
  | .riscv64 => if i = 0 then action.handler else if i = 1 then action.flags else action.mask
  | .aarch64 | .x86_64 =>
    if i = 0 then action.handler else if i = 1 then action.flags else if i = 2 then action.restorer else action.mask

/-! ## Signal state -/

def signalCount : Nat := 64

def sigkill : Nat := 9

def sigstop : Nat := 19

def eintr : Int := -4

def efault : Int := -14

def einval : Int := -22

def esrch : Int := -3

theorem or_unblockable {x y : Word} (hx : x &&& unblockableMask = 0) (hy : y &&& unblockableMask = 0) :
    (x ||| y) &&& unblockableMask = 0 := by
  rw [BitVec.and_comm, BitVec.and_or_distrib_left, BitVec.and_comm, hx, BitVec.and_comm, hy]
  rfl

theorem and_unblockable {x : Word} (y : Word) (hx : x &&& unblockableMask = 0) : (x &&& y) &&& unblockableMask = 0 := by
  rw [BitVec.and_assoc, BitVec.and_comm y, ← BitVec.and_assoc, hx]
  exact BitVec.zero_and

namespace SignalState

/-- `SignalState::new`. -/
def new : SignalState := ⟨fun _ => emptySignalAction, 0, 0, BitVec.zero_and⟩

def forkClone (s : SignalState) : SignalState := { s with pending := 0 }

def enqueue (s : SignalState) (signal : Nat) : SignalState := { s with pending := s.pending ||| bit (signal - 1) }

def resetForExec (s : SignalState) : SignalState :=
  { s with
    actions := fun i =>
      if 1 ≤ i ∧ i ≤ signalCount ∧ (s.actions i).handler ≠ sigIgn then emptySignalAction else s.actions i
    pending := 0 }

/-- A store to `blocked` of a mask that leaves the unblockable signals out. -/
def storeBlocked (s : SignalState) (mask : Word) (h : mask &&& unblockableMask = 0) : SignalState :=
  { s with blocked := mask, unblockable := h }

/-- The store of `sys_rt_sigprocmask`; `none` for an unknown `how`. The set that was read has its unblockable signals
taken out. -/
def changeMask (s : SignalState) (how : Nat) (set : Word) : Option SignalState :=
  let requested := set &&& ~~~unblockableMask
  match how with
  | 0 => some (s.storeBlocked (s.blocked ||| requested) (or_unblockable s.unblockable (and_not_and_self _ _)))
  | 1 => some (s.storeBlocked (s.blocked &&& ~~~requested) (and_unblockable _ s.unblockable))
  | 2 => some (s.storeBlocked requested (and_not_and_self _ _))
  | _ => none

end SignalState

/-! ## The calls -/

section Calls

variable {arch : Arch}

def Thread.setSignals {F : Type} (t : Thread F) (s : SignalState) : Thread F := { t with signals := s }

/-- The end of `sys_rt_sigaction` and `sys_rt_sigprocmask`: the old value goes to the caller. -/
def writeOld (arch : Arch) (t : Thread (TrapFrame arch)) (address size : Nat) (words : Nat → Word) :
    Int × Thread (TrapFrame arch) :=
  if address = 0 then (0, t)
  else
    match (port arch).writeUser t.mem address size words with
    | none => (efault, t)
    | some mem => (0, { t with mem := mem })

/-- The checks of `sys_rt_sigaction` on the new action. -/
def checkedAction (arch : Arch) (m : UserMem) (address : Nat) : Option SignalAction :=
  match (port arch).readUser m address (userActionSize arch) with
  | none => none
  | some words =>
    let action := kernelSignalAction arch words
    if sigIgn < action.handler ∧ !m.checkRange (port arch).addressLimit action.handler.toNat 1 false then none
    else if action.flags &&& saRestorer ≠ 0 ∧ !m.checkRange (port arch).addressLimit action.restorer.toNat 1 false then none
    else some { action with mask := action.mask &&& ~~~unblockableMask }

def sysRtSigaction (arch : Arch) (t : Thread (TrapFrame arch)) (signal action oldAction : Nat) :
    Int × Thread (TrapFrame arch) :=
  if signal = 0 ∨ signal > signalCount ∨ signal = sigkill ∨ signal = sigstop then (einval, t)
  else
    let old := userSignalAction arch (t.signals.actions signal)
    if action = 0 then writeOld arch t oldAction (userActionSize arch) old
    else
      match checkedAction arch t.mem action with
      | none => (efault, t)
      | some new =>
        writeOld arch (t.setSignals (t.signals.setAction signal new)) oldAction (userActionSize arch) old

def sysRtSigprocmask (arch : Arch) (t : Thread (TrapFrame arch)) (how set oldSet : Nat) : Int × Thread (TrapFrame arch) :=
  let old : Nat → Word := fun _ => t.signals.blocked
  if set = 0 then writeOld arch t oldSet 1 old
  else
    match (port arch).readUser t.mem set 1 with
    | none => (efault, t)
    | some words =>
      match t.signals.changeMask how (words 0) with
      | none => (einval, t)
      | some signals => writeOld arch (t.setSignals signals) oldSet 1 old

/-- A mask that `sys_rt_sigsuspend` keeps while it waits. -/
def OldMask : Type := { mask : Word // mask &&& unblockableMask = 0 }

/-- `sys_rt_sigsuspend` up to its wait: a result, or the mask to put back after the wait. -/
def sysRtSigsuspend (arch : Arch) (t : Thread (TrapFrame arch)) (mask : Nat) :
    (Int ⊕ OldMask) × Thread (TrapFrame arch) :=
  match (port arch).readUser t.mem mask 1 with
  | none => (.inl efault, t)
  | some words =>
    let waiting := t.signals.setBlocked (words 0)
    if waiting.pending &&& ~~~waiting.blocked ≠ 0 then (.inl eintr, t)
    else (.inr ⟨t.signals.blocked, t.signals.unblockable⟩, t.setSignals waiting)

/-- The context that `sys_execve` installs. -/
def execContext (arch : Arch) (cpu : Cpu (TrapFrame arch)) (entry stackTop : Word) : Option (Cpu (TrapFrame arch)) :=
  match (port arch).captureUserContext cpu with
  | none => none
  | some context =>
    (port arch).restoreUserContext cpu { context with regs := fun _ => 0, pc := entry, sp := stackTop, tls := 0 }

end Calls

/-! ## Processes -/

/-- How a process came into the kernel. -/
inductive Entry where
  | native
  | gate
  | fork
deriving DecidableEq, Repr

/-- Where a process is. -/
inductive Phase where
  | user
  /-- In a system call that is still to run. -/
  | entered (entry : Entry)
  /-- Waiting in `sys_rt_sigsuspend`. -/
  | suspended (entry : Entry) (old : OldMask)
  /-- The result is stored; the return to user mode is left. -/
  | returning (entry : Entry)
  | zombie

structure Process (arch : Arch) where
  parent : Nat
  thread : Thread (TrapFrame arch)
  /-- `signal_events`. -/
  events : Nat
  phase : Phase

structure World (arch : Arch) where
  process : Nat → Option (Process arch)
  /-- `NEXT_PID`, the last number that was given. -/
  nextPid : Nat

inductive Call (arch : Arch) where
  | rtSigaction (signal action oldAction : Nat)
  | rtSigprocmask (how set oldSet : Nat)
  | rtSigsuspend (mask : Nat)
  | rtSigreturn
  | kill (pid signal : Nat)
  | clone
  /-- A successful `execve`: the new memory, entry point and stack. -/
  | execve (mem : UserMem) (entry stackTop : Word)
  /-- A `wait4` that reaps a child. -/
  | reap (child : Nat)
  | exit
  /-- Any other call, or one that fails: the memory may change. -/
  | other (mem : UserMem) (result : Word)

inductive Event (arch : Arch) where
  /-- User code has run, with any effect on its memory and registers, and makes a system call. -/
  | enter (pid : Nat) (entry : Entry) (mem : UserMem) (cpu : Cpu (TrapFrame arch))
  | call (pid : Nat) (call : Call arch)
  /-- The wait of `sys_rt_sigsuspend` ends. -/
  | wake (pid : Nat)
  /-- The return to user mode; the flag says whether the restorer page is or can be mapped. -/
  | leave (pid : Nat) (mapped : Bool)

section Step

variable {arch : Arch}

namespace Process

def setThread (p : Process arch) (t : Thread (TrapFrame arch)) : Process arch := { p with thread := t }

def signals (p : Process arch) : SignalState := p.thread.signals

def setSignals (p : Process arch) (s : SignalState) : Process arch := p.setThread (p.thread.setSignals s)

/-- The dispatcher stores the result of the call. -/
def finish (p : Process arch) (entry : Entry) (result : Word) : Process arch :=
  { p with
    thread := { p.thread with cpu := (port arch).setResult p.thread.cpu result }
    phase := .returning entry }

/-- `pending |= 1 << (signal - 1)` and a post of `signal_events`. -/
def post (p : Process arch) (signal : Nat) : Process arch :=
  { p.setSignals (p.signals.enqueue signal) with events := p.events + 1 }

end Process

namespace World

def set (w : World arch) (pid : Nat) (p : Process arch) : World arch :=
  { w with process := Function.update w.process pid (some p) }

/-- Send a signal to a process. -/
def post (w : World arch) (pid signal : Nat) : World arch :=
  match w.process pid with
  | none => w
  | some p => w.set pid (p.post signal)

/-- `alloc_process`. -/
def alloc (w : World arch) (child : Process arch) : World arch :=
  { w.set (w.nextPid + 1) child with nextPid := w.nextPid + 1 }

/-- `reap`. -/
def remove (w : World arch) (pid : Nat) : World arch := { w with process := Function.update w.process pid none }

@[simp] theorem set_self (w : World arch) (pid : Nat) (p : Process arch) : (w.set pid p).process pid = some p :=
  Function.update_self ..

theorem set_of_ne (w : World arch) {pid q : Nat} (p : Process arch) (h : q ≠ pid) :
    (w.set pid p).process q = w.process q :=
  Function.update_of_ne h ..

/-- `exit_current` of process `p`. -/
def exitCurrent (w : World arch) (pid : Nat) (p : Process arch) : World arch :=
  let w := w.set pid { p with phase := .zombie }
  if p.parent ≠ 0 ∧ p.parent ≠ pid then w.post p.parent 17 else w

def sysKill (w : World arch) (pid target signal : Nat) : Int × World arch :=
  let target := if target = 0 then pid else target
  if signal > signalCount then (einval, w)
  else if (w.process target).isNone then (esrch, w)
  else if signal ≠ 0 then (0, w.post target signal)
  else (0, w)

/-- A system call of the process `p` that came in through `entry`. -/
def call (w : World arch) (pid : Nat) (p : Process arch) (entry : Entry) : Call arch → Option (World arch)
  | .rtSigaction signal action oldAction =>
    let (result, t) := sysRtSigaction arch p.thread signal action oldAction
    some (w.set pid ((p.setThread t).finish entry (BitVec.ofInt 64 result)))
  | .rtSigprocmask how set oldSet =>
    let (result, t) := sysRtSigprocmask arch p.thread how set oldSet
    some (w.set pid ((p.setThread t).finish entry (BitVec.ofInt 64 result)))
  | .rtSigsuspend mask =>
    match sysRtSigsuspend arch p.thread mask with
    | (.inl result, t) => some (w.set pid ((p.setThread t).finish entry (BitVec.ofInt 64 result)))
    | (.inr old, t) => some (w.set pid { p.setThread t with phase := .suspended entry old })
  | .rtSigreturn =>
    match (port arch).sigreturn p.thread with
    | none => some (w.exitCurrent pid p)
    | some t => some (w.set pid { p with thread := t, phase := .returning entry })
  | .kill target signal =>
    let (result, w) := w.sysKill pid target signal
    -- a process may send a signal to itself
    (w.process pid).map fun p => w.set pid (p.finish entry (BitVec.ofInt 64 result))
  | .clone =>
    let child : Process arch :=
      { parent := pid, thread := p.thread.setSignals p.signals.forkClone, events := 0, phase := .returning .fork }
    some ((w.alloc child).set pid (p.finish entry (BitVec.ofNat 64 (w.nextPid + 1))))
  | .execve mem start stackTop =>
    (execContext arch p.thread.cpu start stackTop).map fun cpu =>
      w.set pid (({ p with thread := ⟨cpu, mem, p.signals.resetForExec⟩ } : Process arch).finish entry 0)
  | .reap child =>
    match w.process child with
    | some ⟨parent, _, _, .zombie⟩ =>
      if parent = pid then
        some ((w.remove child).set pid (p.finish entry (BitVec.ofNat 64 child)))
      else none
    | _ => none
  | .exit => some (w.exitCurrent pid p)
  | .other mem result => some (w.set pid ((p.setThread { p.thread with mem := mem }).finish entry result))

/-- The way back to user mode: only the native entry asks `user_trap_status`. -/
def leave (w : World arch) (pid : Nat) (p : Process arch) (entry : Entry) (mapped : Bool) : World arch :=
  match entry with
  | .native =>
    match (port arch).deliver pid mapped p.thread with
    | (.fatal _, t) => w.exitCurrent pid (p.setThread t)
    | (_, t) => w.set pid { p with thread := t, phase := .user }
  | .gate | .fork => w.set pid { p with phase := .user }

/-- The entries of an architecture that a system call can take. -/
def canEnter : Arch → Entry → Bool
  | .x86_64, .native => true
  | _, .gate => true
  | _, _ => false

def step (w : World arch) : Event arch → Option (World arch)
  | .enter pid entry mem cpu =>
    match w.process pid with
    | some p =>
      match p.phase with
      | .user =>
        -- the frame is one of user mode
        if canEnter arch entry && ((port arch).captureUserContext cpu).isSome then
          some (w.set pid { p with thread := { p.thread with cpu := cpu, mem := mem }, phase := .entered entry })
        else none
      | _ => none
    | none => none
  | .call pid c =>
    match w.process pid with
    | some p =>
      match p.phase with
      | .entered entry => w.call pid p entry c
      | _ => none
    | none => none
  | .wake pid =>
    match w.process pid with
    | some p =>
      match p.phase with
      | .suspended entry old =>
        if 0 < p.events then
          let p := p.setSignals (p.signals.storeBlocked old.1 old.2)
          some (w.set pid ({ p with events := p.events - 1 }.finish entry (BitVec.ofInt 64 eintr)))
        else none
      | _ => none
    | none => none
  | .leave pid mapped =>
    match w.process pid with
    | some p =>
      match p.phase with
      | .returning entry => some (w.leave pid p entry mapped)
      | _ => none
    | none => none

/-- The first process. -/
def boot (mem : UserMem) (cpu : Cpu (TrapFrame arch)) : World arch :=
  { process := fun pid => if pid = 1 then some ⟨0, ⟨cpu, mem, .new⟩, 0, .user⟩ else none, nextPid := 1 }

/-- What an event can do. -/
theorem step_cases {w w' : World arch} {e : Event arch} (h : w.step e = some w') :
    (∃ pid p entry mem cpu, e = .enter pid entry mem cpu ∧ w.process pid = some p ∧ p.phase = .user ∧
      canEnter arch entry = true ∧ ((port arch).captureUserContext cpu).isSome = true ∧
      w' = w.set pid { p with thread := { p.thread with cpu := cpu, mem := mem }, phase := .entered entry }) ∨
    (∃ pid p entry c, e = .call pid c ∧ w.process pid = some p ∧ p.phase = .entered entry ∧
      w.call pid p entry c = some w') ∨
    (∃ pid p entry old, e = .wake pid ∧ w.process pid = some p ∧ p.phase = .suspended entry old ∧
      w' = w.set pid ({ p.setSignals (p.signals.storeBlocked old.1 old.2) with events := p.events - 1 }.finish entry
        (BitVec.ofInt 64 eintr))) ∨
    (∃ pid p entry mapped, e = .leave pid mapped ∧ w.process pid = some p ∧ p.phase = .returning entry ∧
      w' = w.leave pid p entry mapped) := by
  cases e with
  | enter pid entry mem cpu =>
    simp only [step] at h
    split at h
    · next p hp =>
      split at h
      · next hphase =>
        split at h
        · next hok =>
          rw [Bool.and_eq_true] at hok
          cases h
          exact .inl ⟨pid, p, entry, mem, cpu, rfl, hp, hphase, hok.1, hok.2, rfl⟩
        · cases h
      · cases h
    · cases h
  | call pid c =>
    simp only [step] at h
    split at h
    · next p hp =>
      split at h
      · next entry hphase => exact .inr (.inl ⟨pid, p, entry, c, rfl, hp, hphase, h⟩)
      · cases h
    · cases h
  | wake pid =>
    simp only [step] at h
    split at h
    · next p hp =>
      split at h
      · next entry old hphase =>
        split at h
        · cases h
          exact .inr (.inr (.inl ⟨pid, p, entry, old, rfl, hp, hphase, rfl⟩))
        · cases h
      · cases h
    · cases h
  | leave pid mapped =>
    simp only [step] at h
    split at h
    · next p hp =>
      split at h
      · next entry hphase =>
        cases h
        exact .inr (.inr (.inr ⟨pid, p, entry, mapped, rfl, hp, hphase, rfl⟩))
      · cases h
    · cases h

end World

end Step

end Koros.Signal
