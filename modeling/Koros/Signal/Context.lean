import Koros.Lib.Bytes
import Mathlib.Data.Fin.VecNotation

/-!
# User contexts on the three architectures

`UserTrapContext` of `kor-arch/src/lib.rs`, the trap frames of the three architectures and what each back end does with
them: `capture_user_context`, `restore_user_context` and `setup_user_signal`, and the parts of `korix/src/syscall/mod.rs`
that are selected by `target_arch` (the Linux machine context, the restorer, the place of the signal frame). `Port`
collects them, with the layout of `LinuxRtSignalFrame` counted in 64-bit words: the structures are `repr(C)` and
little-endian, and their smaller fields fill whole words.

`Port.visible`, `Port.redZone` and `Port.entrySp` are not code: they say what a user program sees of a context and what
its ABI promises.
-/
set_option autoImplicit false

namespace Koros.Signal

open Koros.Lib

abbrev Word := BitVec 64

inductive Arch where
  | riscv64
  | aarch64
  | x86_64
deriving DecidableEq, Repr

structure UserTrapContext where
  regs : Fin 32 → Word
  pc : Word
  status : Word
  sp : Word
  tls : Word
  fpCallee : Fin 12 → Word
  fcsr : Word

/-- The trap frame, and the registers that live in the CPU while the kernel runs. -/
structure Cpu (F : Type) where
  frame : F
  /-- `fs0`..`fs11`, or what else the ABI lets a function rely on across a call. -/
  fp : Fin 12 → Word
  fcsr : Word
  /-- The `FS` base of x86_64. -/
  fsBase : Word

structure SignalAction where
  handler : Word
  flags : Word
  restorer : Word
  mask : Word
deriving DecidableEq

def saRestorer : Word := 0x04000000

def saNodefer : Word := 0x40000000

def saResethand : Word := 0x80000000

/-- The arguments of `setup_user_signal`. -/
structure Setup where
  handler : Word
  restorer : Word
  signalFrame : Word
  signal : Word
  siginfo : Word
  ucontext : Word

/-- Where the fields of `LinuxRtSignalFrame` are, in words from its start. -/
structure Layout where
  size : Nat
  /-- The return address at the start of the frame, on x86_64. -/
  restorer : Option Nat
  info : Nat
  context : Nat
  mask : Nat
  machine : Nat
  machineSize : Nat
  machine_fits : machine + machineSize ≤ size
  mask_fits : mask < size
  mask_out : mask < machine ∨ machine + machineSize ≤ mask

/-- What the portable signal code takes from an architecture. -/
structure Port (F : Type) where
  addressLimit : Nat
  layout : Layout
  /-- `uc_flags`. -/
  ucontextFlags : Word
  machineContext : UserTrapContext → Nat → Word
  trapContext : (Nat → Word) → Option UserTrapContext
  signalFrameAddress : UserTrapContext → Option Nat
  restoredSyscallResult : UserTrapContext → Word
  /-- `signal_restorer`; the flag says whether `ensure_signal_restorer` finds its page or can map it. -/
  signalRestorer : SignalAction → Bool → Option Word
  captureUserContext : Cpu F → Option UserTrapContext
  restoreUserContext : Cpu F → UserTrapContext → Option (Cpu F)
  setupUserSignal : Cpu F → Setup → Option (Cpu F)
  /-- The store of a system call's result into the frame. -/
  setResult : Cpu F → Word → Cpu F
  /-- What a user program sees of the context; `status` holds the flags it can set itself. -/
  visible : Cpu F → UserTrapContext
  /-- `INSTRUCTION_ALIGN`. -/
  instructionAlign : Nat
  /-- What `restore_user_context` asks of a stack pointer. -/
  stackAlign : Nat
  /-- Bytes below the stack pointer that the ABI keeps for the running function. -/
  redZone : Nat
  /-- The stack pointer modulo 16 at the entry of a function. -/
  entrySp : Nat
  /-- How far the return from the handler moves the stack pointer. -/
  popped : Nat

/-! ## riscv64 -/

namespace Riscv64

structure TrapFrame where
  regs : Fin 32 → Word
  sstatus : Word
  sepc : Word

def sstatusSpp : Word := 1 <<< 8

def sstatusSpie : Word := 1 <<< 5

def sstatusFs : Word := 3 <<< 13

def signalRestorerAddress : Word := 0x0ffffef000

def machineContext (context : UserTrapContext) (i : Nat) : Word :=
  if i = 0 then context.pc else if h : i < 32 then context.regs ⟨i, h⟩ else 0

def trapContext (machine : Nat → Word) : Option UserTrapContext :=
  let regs : Fin 32 → Word := fun i => machine i
  some { regs := Function.update regs 0 0, pc := machine 0, status := 0, sp := machine 2, tls := machine 4,
         fpCallee := fun _ => 0, fcsr := 0 }

def captureUserContext (cpu : Cpu TrapFrame) : Option UserTrapContext :=
  if cpu.frame.sstatus &&& sstatusSpp ≠ 0 then none
  else some { regs := cpu.frame.regs, pc := cpu.frame.sepc, status := cpu.frame.sstatus &&& (sstatusSpie ||| sstatusFs),
              sp := cpu.frame.regs 2, tls := cpu.frame.regs 4, fpCallee := cpu.fp, fcsr := cpu.fcsr }

def restoreUserContext (cpu : Cpu TrapFrame) (context : UserTrapContext) : Option (Cpu TrapFrame) :=
  if context.pc.toNat % 2 ≠ 0 ∨ context.sp.toNat % 8 ≠ 0 then none
  else
    let regs := Function.update (Function.update (Function.update context.regs 0 0) 2 context.sp) 4 context.tls
    let sstatus := (cpu.frame.sstatus &&& ~~~(sstatusSpp ||| sstatusFs)) ||| sstatusSpie ||| sstatusFs
    some { cpu with frame := ⟨regs, sstatus, context.pc⟩, fp := context.fpCallee, fcsr := context.fcsr }

def setupUserSignal (cpu : Cpu TrapFrame) (s : Setup) : Option (Cpu TrapFrame) :=
  if s.handler.toNat % 2 ≠ 0 ∨ s.restorer.toNat % 2 ≠ 0 then none
  else
    let regs := Function.update (Function.update cpu.frame.regs 1 s.restorer) 2 s.signalFrame
    let regs := Function.update (Function.update (Function.update regs 10 s.signal) 11 s.siginfo) 12 s.ucontext
    some { cpu with frame := { cpu.frame with regs := regs, sepc := s.handler } }

def port : Port TrapFrame where
  addressLimit := 2 ^ 38
  layout := ⟨136, none, 0, 16, 21, 38, 98, by decide, by decide, by decide⟩
  ucontextFlags := 0
  machineContext := machineContext
  trapContext := trapContext
  signalFrameAddress := fun context => some context.sp.toNat
  restoredSyscallResult := fun context => context.regs 10
  signalRestorer := fun _ mapped => if mapped then some signalRestorerAddress else none
  captureUserContext := captureUserContext
  restoreUserContext := restoreUserContext
  setupUserSignal := setupUserSignal
  setResult := fun cpu r => { cpu with frame := { cpu.frame with regs := Function.update cpu.frame.regs 10 r } }
  visible := fun cpu =>
    { regs := Function.update cpu.frame.regs 0 0, pc := cpu.frame.sepc, status := 0, sp := cpu.frame.regs 2,
      tls := cpu.frame.regs 4, fpCallee := cpu.fp, fcsr := cpu.fcsr }
  instructionAlign := 2
  stackAlign := 8
  redZone := 0
  entrySp := 0
  popped := 0

end Riscv64

/-! ## aarch64 -/

namespace Aarch64

structure TrapFrame where
  regs : Fin 31 → Word
  sp : Word
  elr : Word
  spsr : Word
  tpidr : Word

def userPstateMask : Word := 0xf0000000

def signalRestorerAddress : Word := 0x7ffffef000

/-- The 31 registers in the array of 32. -/
def widen (regs : Fin 31 → Word) : Fin 32 → Word := fun i => if h : i.val < 31 then regs ⟨i, h⟩ else 0

/-- The first 31 of 32 registers. -/
def narrow (regs : Fin 32 → Word) : Fin 31 → Word := fun i => regs i.castSucc

def machineContext (context : UserTrapContext) (i : Nat) : Word :=
  if i = 32 then context.sp
  else if i = 33 then context.pc
  else if i = 34 then context.status
  -- word 0 is `fault_address`
  else if h : 1 ≤ i ∧ i < 32 then context.regs ⟨i - 1, by omega⟩
  else 0

def trapContext (machine : Nat → Word) : Option UserTrapContext :=
  some { regs := widen fun i => machine (i + 1), pc := machine 33, status := machine 34, sp := machine 32, tls := 0,
         fpCallee := fun _ => 0, fcsr := 0 }

def captureUserContext (cpu : Cpu TrapFrame) : Option UserTrapContext :=
  some { regs := widen cpu.frame.regs, pc := cpu.frame.elr, status := cpu.frame.spsr &&& userPstateMask,
         sp := cpu.frame.sp, tls := cpu.frame.tpidr, fpCallee := fun _ => 0, fcsr := 0 }

def restoreUserContext (cpu : Cpu TrapFrame) (context : UserTrapContext) : Option (Cpu TrapFrame) :=
  if context.pc.toNat % 4 ≠ 0 ∨ context.sp.toNat % 16 ≠ 0 then none
  else some { cpu with frame :=
    ⟨narrow context.regs, context.sp, context.pc, context.status &&& userPstateMask, context.tls⟩ }

def setupUserSignal (cpu : Cpu TrapFrame) (s : Setup) : Option (Cpu TrapFrame) :=
  if s.handler.toNat % 4 ≠ 0 ∨ s.restorer.toNat % 4 ≠ 0 ∨ s.signalFrame.toNat % 16 ≠ 0 then none
  else
    let regs := Function.update (Function.update (Function.update cpu.frame.regs 0 s.signal) 1 s.siginfo) 2 s.ucontext
    some { cpu with frame :=
      { cpu.frame with regs := Function.update regs 30 s.restorer, sp := s.signalFrame, elr := s.handler } }

def port : Port TrapFrame where
  addressLimit := 2 ^ 48
  layout := ⟨586, none, 0, 16, 21, 38, 548, by decide, by decide, by decide⟩
  ucontextFlags := 0
  machineContext := machineContext
  trapContext := trapContext
  signalFrameAddress := fun context => some context.sp.toNat
  restoredSyscallResult := fun context => context.regs 0
  signalRestorer := fun action mapped =>
    if action.flags &&& saRestorer ≠ 0 then if action.restorer ≠ 0 then some action.restorer else none
    else if mapped then some signalRestorerAddress else none
  captureUserContext := captureUserContext
  restoreUserContext := restoreUserContext
  setupUserSignal := setupUserSignal
  setResult := fun cpu r => { cpu with frame := { cpu.frame with regs := Function.update cpu.frame.regs 0 r } }
  visible := fun cpu =>
    { regs := widen cpu.frame.regs, pc := cpu.frame.elr, status := cpu.frame.spsr &&& userPstateMask,
      sp := cpu.frame.sp, tls := cpu.frame.tpidr, fpCallee := cpu.fp, fcsr := cpu.fcsr }
  instructionAlign := 4
  stackAlign := 16
  redZone := 0
  entrySp := 0
  popped := 0

end Aarch64

/-! ## x86_64 -/

namespace X8664

structure TrapFrame where
  rax : Word
  rcx : Word
  rdx : Word
  rbx : Word
  rbp : Word
  rsi : Word
  rdi : Word
  r8 : Word
  r9 : Word
  r10 : Word
  r11 : Word
  r12 : Word
  r13 : Word
  r14 : Word
  r15 : Word
  rip : Word
  cs : Word
  rflags : Word
  rsp : Word
  ss : Word

/-- The flags that user code can set itself: CF, PF, AF, ZF, SF, TF, DF, OF, AC and ID. -/
def userFlags : Word := 0x240dd5

/-- IF and the bit that is always one. -/
def fixedFlags : Word := 0x202

/-- The general registers in the order of Linux' `sigcontext`. -/
def gprs (f : TrapFrame) : Fin 32 → Word := fun i =>
  ![f.r8, f.r9, f.r10, f.r11, f.r12, f.r13, f.r14, f.r15, f.rdi, f.rsi, f.rbp, f.rbx, f.rdx, f.rax, f.rcx, 0, 0, 0, 0, 0,
    0, 0, 0, 0, 0, 0, 0, 0, 0, 0, 0, 0] i

def isCanonical (addr : Word) : Bool :=
  -- `(addr >> 47) as u16`
  let high := addr.toNat / 2 ^ 47 % 2 ^ 16
  high == 0 || high == 0xFFFF

/-- Word 18 holds the four segment selectors. -/
def machineContext (context : UserTrapContext) (i : Nat) : Word :=
  if h : i < 15 then context.regs ⟨i, by omega⟩
  else if i = 15 then context.sp
  else if i = 16 then context.pc
  else if i = 17 then context.status
  else if i = 18 then 0x0023_0000_0000_001b
  else 0

def trapContext (machine : Nat → Word) : Option UserTrapContext :=
  let cs := (machine 18).toNat % 2 ^ 16
  let ss := (machine 18).toNat / 2 ^ 48
  if cs ≠ 0x1b ∨ ss ≠ 0x23 then none
  else some { regs := fun i => if i.val < 15 then machine i else 0, pc := machine 16, status := machine 17, sp := machine 15,
              tls := 0, fpCallee := fun _ => 0, fcsr := 0 }

def captureUserContext (cpu : Cpu TrapFrame) : Option UserTrapContext :=
  if cpu.frame.cs &&& 3 ≠ 3 then none
  else some { regs := gprs cpu.frame, pc := cpu.frame.rip, status := cpu.frame.rflags, sp := cpu.frame.rsp,
              tls := cpu.fsBase, fpCallee := fun _ => 0, fcsr := 0 }

def restoreUserContext (cpu : Cpu TrapFrame) (context : UserTrapContext) : Option (Cpu TrapFrame) :=
  let r := context.regs
  some { cpu with
    fsBase := context.tls
    frame :=
      { r8 := r 0, r9 := r 1, r10 := r 2, r11 := r 3, r12 := r 4, r13 := r 5, r14 := r 6, r15 := r 7, rdi := r 8, rsi := r 9,
        rbp := r 10, rbx := r 11, rdx := r 12, rax := r 13, rcx := r 14, rip := context.pc, rsp := context.sp,
        rflags := context.status ||| 0x202, cs := 0x1b, ss := 0x23 } }

def setupUserSignal (cpu : Cpu TrapFrame) (s : Setup) : Option (Cpu TrapFrame) :=
  if !isCanonical s.handler || !isCanonical s.signalFrame then none
  else if s.signalFrame.toNat % 8 ≠ 0 then none
  else some { cpu with frame :=
    { cpu.frame with
      rdi := s.signal, rsi := s.siginfo, rdx := s.ucontext, rax := 0, rip := s.handler, rsp := s.signalFrame, cs := 0x1b,
      ss := 0x23, rflags := 0x202 } }

def port : Port TrapFrame where
  addressLimit := 2 ^ 47
  layout := ⟨56, some 0, 39, 1, 38, 6, 32, by decide, by decide, by decide⟩
  ucontextFlags := 6
  machineContext := machineContext
  trapContext := trapContext
  signalFrameAddress := fun context => if 8 ≤ context.sp.toNat then some (context.sp.toNat - 8) else none
  restoredSyscallResult := fun context => context.regs 13
  signalRestorer := fun action _ =>
    if action.flags &&& saRestorer ≠ 0 ∧ action.restorer ≠ 0 then some action.restorer else none
  captureUserContext := captureUserContext
  restoreUserContext := restoreUserContext
  setupUserSignal := setupUserSignal
  setResult := fun cpu r => { cpu with frame := { cpu.frame with rax := r } }
  visible := fun cpu =>
    { regs := gprs cpu.frame, pc := cpu.frame.rip, status := cpu.frame.rflags &&& userFlags, sp := cpu.frame.rsp,
      tls := cpu.fsBase, fpCallee := cpu.fp, fcsr := cpu.fcsr }
  instructionAlign := 1
  stackAlign := 1
  redZone := 128
  entrySp := 8
  popped := 8

end X8664

/-! ## The three ports -/

def TrapFrame : Arch → Type
  | .riscv64 => Riscv64.TrapFrame
  | .aarch64 => Aarch64.TrapFrame
  | .x86_64 => X8664.TrapFrame

def port : (arch : Arch) → Port (TrapFrame arch)
  | .riscv64 => Riscv64.port
  | .aarch64 => Aarch64.port
  | .x86_64 => X8664.port

end Koros.Signal
