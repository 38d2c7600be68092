import Koros.Signal.Deliver

/-!
# Privilege after `rt_sigreturn`

The signal frame is user memory: its content is arbitrary. riscv64 and aarch64 take nothing from its status word that
user code could not set itself; x86_64 copies the saved flags into `rflags` whole, so IOPL, NT and the other system flags
come back as the frame has them. **`sigreturn_unprivileged`** says exactly when the restored context is unprivileged.
-/
set_option autoImplicit false

namespace Koros.Signal

open Koros.Lib

/-! ## Unprivileged contexts -/

/-- `sstatus` is that of the trap, with return to user mode and interrupts on. -/
structure Riscv64.Unprivileged (t t' : Thread TrapFrame) : Prop where
  user : t'.cpu.frame.sstatus &&& sstatusSpp = 0
  interrupts : t'.cpu.frame.sstatus &&& sstatusSpie = sstatusSpie
  pc : t'.cpu.frame.sepc.toNat < port.addressLimit
  sp : (t'.cpu.frame.regs 2).toNat < port.addressLimit
  status : t'.cpu.frame.sstatus =
    (t.cpu.frame.sstatus &&& ~~~(sstatusSpp ||| sstatusSpie ||| sstatusFs)) ||| (sstatusSpie ||| sstatusFs)

/-- Mode, interrupt masks and all else but the condition flags are zero: EL0 with interrupts on. -/
structure Aarch64.Unprivileged (t t' : Thread TrapFrame) : Prop where
  pc : t'.cpu.frame.elr.toNat < port.addressLimit
  sp : t'.cpu.frame.sp.toNat < port.addressLimit
  status : t'.cpu.frame.spsr = t.mem.word t.cpu.frame.sp.toNat (port.layout.machine + 34) &&& userPstateMask

namespace X8664

/-- The flags in the signal frame. -/
def savedFlags (t : Thread TrapFrame) : Word := t.mem.word (t.cpu.frame.rsp.toNat - 8) (port.layout.machine + 17)

structure Unprivileged (t t' : Thread TrapFrame) : Prop where
  cs : t'.cpu.frame.cs = 0x1b
  ss : t'.cpu.frame.ss = 0x23
  pc : t'.cpu.frame.rip.toNat < port.addressLimit
  sp : t'.cpu.frame.rsp.toNat < port.addressLimit
  /-- Interrupts on, the user's own flags from the frame, and every other flag zero. -/
  status : t'.cpu.frame.rflags = (savedFlags t &&& userFlags) ||| fixedFlags

end X8664

/-- The context after a return depends on the frame only through what user code can set itself, and is unprivileged. -/
def Unprivileged : (arch : Arch) → (t t' : Thread (TrapFrame arch)) → Prop
  | .riscv64 => Riscv64.Unprivileged
  | .aarch64 => Aarch64.Unprivileged
  | .x86_64 => X8664.Unprivileged

/-- On x86_64, the saved flags have no system flag but IF. -/
def UserFlagsOnly : (arch : Arch) → Thread (TrapFrame arch) → Prop
  | .riscv64, _ => True
  | .aarch64, _ => True
  | .x86_64, t => X8664.savedFlags t &&& ~~~(X8664.userFlags ||| X8664.fixedFlags) = 0

/-! ## Masks -/

section Masks

variable (x m k p : Word)

/-- Set bits read through a mask. -/
theorem and_or_and : ((x &&& m) ||| k) &&& p = (x &&& (m &&& p)) ||| (k &&& p) := by
  ext i hi
  simp only [BitVec.getElem_and, BitVec.getElem_or, Bool.and_or_distrib_right, Bool.and_assoc]

/-- Clearing bits that are set afterwards changes nothing. -/
theorem and_not_or_or : (x &&& ~~~(p ||| m)) ||| k ||| m = (x &&& ~~~(p ||| k ||| m)) ||| (k ||| m) := by
  ext i hi
  simp only [BitVec.getElem_and, BitVec.getElem_or, BitVec.getElem_not]
  cases k[i] <;> cases m[i] <;> simp

/-- A word with `k` set has only bits of `m` and `k` exactly if it had before. -/
theorem or_eq_and_or_iff : x ||| k = (x &&& m) ||| k ↔ x &&& ~~~(m ||| k) = 0 := by
  constructor
  · intro h
    ext i hi
    have hi' := congrArg (fun w : Word => w[i]) h
    simp only [BitVec.getElem_and, BitVec.getElem_or, BitVec.getElem_not] at hi' ⊢
    cases hx : x[i] <;> cases hk : k[i] <;> simp_all
  · intro h
    ext i hi
    have hi' := congrArg (fun w : Word => w[i]) h
    simp only [BitVec.getElem_and, BitVec.getElem_or, BitVec.getElem_not] at hi' ⊢
    cases hx : x[i] <;> cases hk : k[i] <;> simp_all

end Masks

/-! ## The three back ends -/

theorem Riscv64.sigreturn_to_user {t t' : Thread TrapFrame} (h : port.sigreturn t = some t') :
    Unprivileged t t' := by
  obtain ⟨active, address, machine, cpu, -, -, -, hpc, hsp, hcpu, rfl⟩ := sigreturn_cases h
  simp only [port, restoreUserContext] at hcpu
  split at hcpu
  · cases hcpu
  cases hcpu
  have hstatus := and_not_or_or t.cpu.frame.sstatus sstatusFs sstatusSpie sstatusSpp
  constructor
  · simp only [port]
    rw [hstatus, and_or_and, show ~~~(sstatusSpp ||| sstatusSpie ||| sstatusFs) &&& sstatusSpp = 0 by decide,
      show (sstatusSpie ||| sstatusFs) &&& sstatusSpp = 0 by decide]
    simp
  · simp only [port]
    rw [hstatus, and_or_and, show ~~~(sstatusSpp ||| sstatusSpie ||| sstatusFs) &&& sstatusSpie = 0 by decide,
      show (sstatusSpie ||| sstatusFs) &&& sstatusSpie = sstatusSpie by decide]
    simp
  · exact hpc
  · simpa [port] using hsp
  · exact hstatus

theorem Aarch64.sigreturn_to_user {t t' : Thread TrapFrame} (h : port.sigreturn t = some t') :
    Unprivileged t t' := by
  obtain ⟨active, address, machine, cpu, hactive, haddress, hmachine, hpc, hsp, hcpu, rfl⟩ := sigreturn_cases h
  simp only [port, restoreUserContext] at hcpu
  split at hcpu
  · cases hcpu
  cases hcpu
  cases hactive
  cases haddress
  cases hmachine
  exact ⟨hpc, hsp, rfl⟩

/-- What the frame gave to the restored context. -/
theorem X8664.savedFlags_eq {t : Thread TrapFrame} {active machine : UserTrapContext} {address : Nat}
    (hactive : port.captureUserContext t.cpu = some active) (haddress : port.signalFrameAddress active = some address)
    (hmachine : port.trapContext (fun i => t.mem.word address (port.layout.machine + i)) = some machine) :
    machine.status = savedFlags t := by
  have haddr : address = t.cpu.frame.rsp.toNat - 8 := by
    simp only [port, captureUserContext] at hactive
    split at hactive
    · cases hactive
    cases hactive
    simp only [port] at haddress
    split at haddress
    · exact (Option.some.inj haddress).symm
    · cases haddress
  simp only [port, trapContext] at hmachine
  split at hmachine
  · cases hmachine
  rw [← Option.some.inj hmachine, haddr]
  rfl

theorem X8664.sigreturn_unprivileged_iff {t t' : Thread TrapFrame} (h : port.sigreturn t = some t') :
    Unprivileged t t' ↔ savedFlags t &&& ~~~(userFlags ||| fixedFlags) = 0 := by
  obtain ⟨active, address, machine, cpu, hactive, haddress, hmachine, hpc, hsp, hcpu, rfl⟩ := sigreturn_cases h
  have hstatus := savedFlags_eq hactive haddress hmachine
  replace hcpu := (Option.some.inj hcpu).symm
  subst hcpu
  refine Iff.trans ?_ (or_eq_and_or_iff (savedFlags t) userFlags fixedFlags)
  constructor
  · intro hu
    rw [← hu.status, ← hstatus]
    rfl
  · intro heq
    refine ⟨rfl, rfl, hpc, hsp, ?_⟩
    rw [← heq, ← hstatus]
    rfl

/-- **No privilege through `rt_sigreturn`**: on riscv64 and aarch64 for every content of the frame, on x86_64 exactly if
the saved flags hold no system flag. -/
theorem sigreturn_unprivileged (arch : Arch) {t t' : Thread (TrapFrame arch)} (h : (port arch).sigreturn t = some t') :
    Unprivileged arch t t' ↔ UserFlagsOnly arch t := by
  cases arch with
  | riscv64 => exact ⟨fun _ => trivial, fun _ => Riscv64.sigreturn_to_user h⟩
  | aarch64 => exact ⟨fun _ => trivial, fun _ => Aarch64.sigreturn_to_user h⟩
  | x86_64 => exact X8664.sigreturn_unprivileged_iff h

/-! ## Frames on x86_64 -/

namespace X8664

/-- A signal frame at 0x10000 whose saved flags are `flags`, with the handler's stack pointer behind the return
address. -/
def sampleThread (flags : Word) : Thread TrapFrame where
  cpu := { frame := ⟨15, 0, 0, 0, 0, 0, 0, 0, 0, 0, 0, 0, 0, 0, 0, 0x400000, 0x1b, 0x202, 0x10008, 0x23⟩
           fp := fun _ => 0, fcsr := 0, fsBase := 0 }
  mem := { pages := fun _ => some true, byte := fun a => UserMem.wordBytes (fun i =>
    if i = 6 + 15 then 0x20000 else if i = 6 + 16 then 0x400000 else if i = 6 + 17 then flags
    else if i = 6 + 18 then 0x0023_0000_0000_001b else 0) (a - 0x10000) }
  signals := { actions := fun _ => emptySignalAction, blocked := 0, pending := 0, unblockable := by decide }

/-- With no system flag in the frame the context is unprivileged. -/
theorem sigreturn_unprivileged_sample :
    ∃ t', (Signal.port .x86_64).sigreturn (sampleThread 0x246) = some t' ∧
      Signal.Unprivileged .x86_64 (sampleThread 0x246) t' := by
  have hrun : (port.sigreturn (sampleThread 0x246)).isSome = true := by decide +kernel
  obtain ⟨t', ht'⟩ := Option.isSome_iff_exists.1 hrun
  have hflags : UserFlagsOnly .x86_64 (sampleThread 0x246) := by
    show savedFlags (sampleThread 0x246) &&& ~~~(userFlags ||| fixedFlags) = 0
    decide +kernel
  exact ⟨t', ht', (Signal.sigreturn_unprivileged .x86_64 ht').2 hflags⟩

/-- A frame with IOPL 3 and NT returns to user mode with both. -/
theorem sigreturn_gains_iopl :
    ∃ t', (Signal.port .x86_64).sigreturn (sampleThread 0x7202) = some t' ∧
      t'.cpu.frame.rflags &&& 0x7000 = 0x7000 ∧ ¬ Signal.Unprivileged .x86_64 (sampleThread 0x7202) t' := by
  have hrun : (port.sigreturn (sampleThread 0x7202)).any (fun t' => t'.cpu.frame.rflags == 0x7202) = true := by
    decide +kernel
  obtain ⟨t', ht', hflags⟩ := (Option.any_eq_true _ _).1 hrun
  have hflags' : t'.cpu.frame.rflags = 0x7202 := by simpa using hflags
  refine ⟨t', ht', by rw [hflags']; decide, fun hu => ?_⟩
  have hstatus := hu.status
  rw [hflags', show savedFlags (sampleThread 0x7202) = 0x7202 by decide +kernel] at hstatus
  exact absurd hstatus (by decide)

end X8664

end Koros.Signal
