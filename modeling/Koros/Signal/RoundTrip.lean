import Koros.Signal.Deliver

/-!
# Delivery and return are inverse

A handler that returns to its restorer with its signal frame as it was written gets back to where the signal arrived.
`returned_words` says what `rt_sigreturn` finds in the frame; each architecture then rebuilds the context from it.

- aarch64 restores all that the frame can hold; the thread pointer and the floating-point registers are those the
  handler left;
- riscv64 loads zeros into `fs0`..`fs11` and `fcsr`, which the frame does not hold;
- x86_64 writes the frame into the red zone and enters the handler with the stack pointer at a multiple of 16.

**`signal_round_trip`** is the exact condition on all three.
-/
set_option autoImplicit false

namespace Koros.Signal

open Koros.Lib

local instance registers : NeZero 32 := ⟨by decide⟩

section RoundTrip

variable {F : Type}

/-- A user context with a valid stack. -/
structure Valid (P : Port F) (cpu : Cpu F) : Prop where
  pc : (P.visible cpu).pc.toNat < P.addressLimit
  sp : (P.visible cpu).sp.toNat < P.addressLimit
  pc_aligned : (P.visible cpu).pc.toNat % P.instructionAlign = 0
  sp_aligned : (P.visible cpu).sp.toNat % P.stackAlign = 0

/-- Started in `t₁`, the handler came to the restorer in `t₂` with its signal frame unchanged. -/
structure Returns (P : Port F) (address : Nat) (t₁ t₂ : Thread F) : Prop where
  user : ∃ active, P.captureUserContext t₂.cpu = some active ∧ active.sp.toNat = address + P.popped
  frame : ∀ k < 8 * P.layout.size, t₂.mem.byte (address + k) = t₁.mem.byte (address + k)
  mapped : t₂.mem.checkRange P.addressLimit address (8 * P.layout.size) false = true

/-- The return undoes the delivery, the frame stays off the interrupted function's stack, and the handler starts with an
aligned stack. -/
def RoundTrip (P : Port F) (address : Nat) (t₀ t₁ t₂ : Thread F) : Prop :=
  (∃ t₃, P.sigreturn t₂ = some t₃ ∧ P.visible t₃.cpu = P.visible t₀.cpu ∧
    t₃.signals.blocked = t₀.signals.blocked) ∧
  address + 8 * P.layout.size + P.redZone ≤ (P.visible t₀.cpu).sp.toNat ∧
  (P.visible t₁.cpu).sp.toNat % 16 = P.entrySp

/-- A delivery in its parts. -/
structure Delivers (P : Port F) (address : Nat) (context : UserTrapContext) (t₀ t₁ : Thread F) : Prop where
  captured : P.captureUserContext t₀.cpu = some context
  size : 8 * P.layout.size ≤ context.sp.toNat
  below : address = (context.sp.toNat - 8 * P.layout.size) / 16 * 16
  machine : ∀ i < P.layout.machineSize, t₁.mem.word address (P.layout.machine + i) = P.machineContext context i
  mask : t₁.mem.word address P.layout.mask = t₀.signals.blocked
  setup : ∃ setup : Setup, setup.signalFrame = BitVec.ofNat 64 address ∧ P.setupUserSignal t₀.cpu setup = some t₁.cpu

variable {P : Port F} {address pid : Nat} {mapped : Bool} {t₀ t₁ t₂ : Thread F} {context : UserTrapContext}

theorem delivers_of_deliver (h : P.deliver pid mapped t₀ = (.redirected address, t₁)) :
    ∃ context, Delivers P address context t₀ t₁ := by
  obtain ⟨t, signal, action, hr, hcpu, -, hblocked⟩ := deliver_redirected h
  obtain ⟨context, setup, hcontext, hsize, haddress, -, hmem, hframe, hsetup⟩ := redirect_redirected hr
  rw [hcpu] at hcontext hsetup
  have hfits := P.layout.machine_fits
  refine ⟨context, hcontext, hsize, haddress, fun i hi => ?_, ?_, setup, hframe, hsetup⟩
  · rw [hmem, word_write (by omega)]
    simp only [Port.signalFrame]
    rw [if_pos ⟨by omega, by omega⟩, Nat.add_sub_cancel_left]
  · have hout := P.layout.mask_out
    rw [hmem, word_write P.layout.mask_fits]
    simp only [Port.signalFrame]
    rw [if_neg (by omega)]
    simpa using hblocked

/-- What `rt_sigreturn` finds in the frame. -/
theorem returned_words (hd : Delivers P address context t₀ t₁) (hr : Returns P address t₁ t₂) :
    (∀ i < P.layout.machineSize, t₂.mem.word address (P.layout.machine + i) = P.machineContext context i) ∧
    t₂.mem.word address P.layout.mask = t₀.signals.blocked := by
  have hfits := P.layout.machine_fits
  constructor
  · intro i hi
    rw [word_congr hr.frame (by omega), hd.machine i hi]
  · rw [word_congr hr.frame P.layout.mask_fits, hd.mask]

/-- The frame lies below the stack pointer, at a multiple of 16. -/
theorem Delivers.address_le (hd : Delivers P address context t₀ t₁) :
    address + 8 * P.layout.size ≤ context.sp.toNat ∧ address % 16 = 0 := by
  have hsize := hd.size
  have hbelow := hd.below
  omega

theorem Delivers.toNat_address (hd : Delivers P address context t₀ t₁) : (BitVec.ofNat 64 address).toNat = address := by
  have hle := hd.address_le.1
  have hlt := context.sp.isLt
  rw [BitVec.toNat_ofNat, Nat.mod_eq_of_lt (by omega)]

theorem setBlocked_blocked (s s₀ : SignalState) : (s.setBlocked s₀.blocked).blocked = s₀.blocked := by
  simp only [SignalState.setBlocked]
  ext i hi
  have h := congrArg (fun w : Word => w[i]) s₀.unblockable
  simp only [BitVec.getElem_and, BitVec.getElem_not] at h ⊢
  cases hb : s₀.blocked[i] <;> simp_all

/-- The return, given what the architecture makes of the frame: the mask is as it was before the delivery. -/
theorem sigreturn_of_machine {active machine : UserTrapContext} {cpu : Cpu F} (hd : Delivers P address context t₀ t₁)
    (hr : Returns P address t₁ t₂) (hactive : P.captureUserContext t₂.cpu = some active)
    (haddress : P.signalFrameAddress active = some address)
    (hmachine : P.trapContext (fun i => t₂.mem.word address (P.layout.machine + i)) = some machine)
    (hpc : machine.pc.toNat < P.addressLimit) (hsp : machine.sp.toNat < P.addressLimit)
    (hcpu : P.restoreUserContext t₂.cpu { machine with tls := active.tls } = some cpu) :
    ∃ t₃, P.sigreturn t₂ = some t₃ ∧ t₃.signals.blocked = t₀.signals.blocked ∧
      t₃.cpu = P.setResult cpu (P.restoredSyscallResult { machine with tls := active.tls }) := by
  have hlimit : ¬ (P.addressLimit ≤ machine.pc.toNat ∨ P.addressLimit ≤ machine.sp.toNat) := by omega
  refine ⟨{ t₂ with
    signals := t₂.signals.setBlocked (t₂.mem.word address P.layout.mask)
    cpu := P.setResult cpu (P.restoredSyscallResult { machine with tls := active.tls }) }, ?_, ?_, rfl⟩
  · simp only [Port.sigreturn, hactive, haddress, hr.mapped, hmachine, hcpu, hlimit, Bool.not_true, Bool.false_eq_true,
      if_false]
  · rw [(returned_words hd hr).2]
    exact setBlocked_blocked _ _

/-- The handler starts with the stack pointer at its frame. -/
theorem Delivers.handler_sp (hd : Delivers P address context t₀ t₁)
    (hsetup : ∀ setup cpu, P.setupUserSignal t₀.cpu setup = some cpu → (P.visible cpu).sp = setup.signalFrame) :
    (P.visible t₁.cpu).sp.toNat = address := by
  obtain ⟨setup, hframe, hcpu⟩ := hd.setup
  rw [hsetup setup _ hcpu, hframe, hd.toNat_address]

/-- Without a red zone the round trip is one of the visible context. -/
theorem roundTrip_iff_visible {t₃ : Thread F} (hd : Delivers P address context t₀ t₁) (hret : P.sigreturn t₂ = some t₃)
    (hblocked : t₃.signals.blocked = t₀.signals.blocked) (hsp : context.sp = (P.visible t₀.cpu).sp)
    (hstack : (P.visible t₁.cpu).sp.toNat = address) (hred : P.redZone = 0) (hentry : P.entrySp = 0) :
    RoundTrip P address t₀ t₁ t₂ ↔ P.visible t₃.cpu = P.visible t₀.cpu := by
  obtain ⟨hle, haligned⟩ := hd.address_le
  constructor
  · rintro ⟨⟨t, ht, hsame, -⟩, -, -⟩
    obtain rfl := Option.some.inj (hret.symm.trans ht)
    exact hsame
  · intro hsame
    refine ⟨⟨t₃, hret, hsame, hblocked⟩, ?_, ?_⟩
    · rw [hred, ← hsp]
      exact hle
    · rw [hstack, hentry]
      exact haligned

end RoundTrip

/-! ## riscv64 -/

namespace Riscv64

variable {address : Nat} {t₀ t₁ t₂ : Thread TrapFrame} {context : UserTrapContext}

theorem capture_eq {cpu : Cpu TrapFrame} {context : UserTrapContext}
    (h : port.captureUserContext cpu = some context) :
    context.regs = cpu.frame.regs ∧ context.pc = cpu.frame.sepc ∧ context.sp = cpu.frame.regs 2 ∧
      context.tls = cpu.frame.regs 4 := by
  simp only [port, captureUserContext] at h
  split at h
  · cases h
  cases h
  exact ⟨rfl, rfl, rfl, rfl⟩

/-- What the machine context holds of a context: the integer registers. -/
def integerContext (context : UserTrapContext) : UserTrapContext where
  regs := Function.update context.regs 0 0
  pc := context.pc
  status := 0
  sp := context.regs 2
  tls := context.regs 4
  fpCallee := fun _ => 0
  fcsr := 0

theorem trapContext_machineContext {words : Nat → Word}
    (h : ∀ i < port.layout.machineSize, words i = port.machineContext context i) :
    port.trapContext words = some (integerContext context) := by
  replace h : ∀ i < 98, words i = machineContext context i := h
  have hregs : (fun i : Fin 32 => words i) = Function.update context.regs 0 context.pc := by
    funext i
    rw [h i (by omega), machineContext]
    by_cases hi : i = 0
    · subst hi
      rfl
    · have hv : i.val ≠ 0 := fun hv => hi (Fin.ext hv)
      rw [if_neg hv, dif_pos i.isLt, Function.update_of_ne hi]
  simp only [port, trapContext, hregs, h 0 (by decide), h 2 (by decide), h 4 (by decide), Function.update_idem]
  rfl

/-- What the program sees of a restored context. -/
theorem visible_restore {cpu cpu' : Cpu TrapFrame} {c : UserTrapContext}
    (h : port.restoreUserContext cpu c = some cpu') :
    port.visible (port.setResult cpu' (port.restoredSyscallResult c)) =
      { c with regs := Function.update (Function.update (Function.update c.regs 0 0) 2 c.sp) 4 c.tls, status := 0 } := by
  simp only [port, restoreUserContext] at h
  split at h
  · cases h
  cases h
  simp only [port, UserTrapContext.mk.injEq, and_true, true_and]
  refine ⟨?_, rfl, rfl⟩
  funext i
  by_cases h₀ : i = 0
  · subst h₀
    rfl
  by_cases h₁ : i = 10
  · subst h₁
    rfl
  · rw [Function.update_of_ne h₀, Function.update_of_ne h₁]

/-- The context after the return: all as before, but for the thread pointer, which is the handler's, and the
floating-point registers, which are zero. -/
theorem sigreturn_visible (hd : Delivers port address context t₀ t₁) (hr : Returns port address t₁ t₂)
    (hv : Valid port t₀.cpu) :
    ∃ t₃, port.sigreturn t₂ = some t₃ ∧ t₃.signals.blocked = t₀.signals.blocked ∧
      port.visible t₃.cpu = { port.visible t₀.cpu with
        regs := Function.update (port.visible t₀.cpu).regs 4 (t₂.cpu.frame.regs 4)
        tls := t₂.cpu.frame.regs 4, fpCallee := fun _ => 0, fcsr := 0 } := by
  obtain ⟨hwords, -⟩ := returned_words hd hr
  obtain ⟨active, hactive, hsp⟩ := hr.user
  obtain ⟨-, -, -, htls⟩ := capture_eq hactive
  obtain ⟨hregs, hpc, -, -⟩ := capture_eq hd.captured
  have hmachine := trapContext_machineContext hwords
  obtain ⟨hvpc, hvsp, hvpa, hvsa⟩ := hv
  simp only [port] at hvpc hvsp hvpa hvsa
  have hrestore : ¬ (context.pc.toNat % 2 ≠ 0 ∨ (context.regs 2).toNat % 8 ≠ 0) := by
    rw [hpc, hregs]
    omega
  obtain ⟨cpu, hcpu⟩ :
      ∃ cpu, port.restoreUserContext t₂.cpu { integerContext context with tls := active.tls } = some cpu :=
    ⟨_, if_neg hrestore⟩
  obtain ⟨t₃, hret, hblocked, ht₃⟩ := sigreturn_of_machine hd hr hactive (congrArg some hsp) hmachine
    (by simpa only [port, integerContext, hpc] using hvpc) (by simpa only [port, integerContext, hregs] using hvsp) hcpu
  refine ⟨t₃, hret, hblocked, ?_⟩
  have hkeep : ∀ (r : Fin 32 → Word) (x : Word),
      Function.update (Function.update (Function.update (Function.update r 0 0) 0 0) 2 (r 2)) 4 x =
        Function.update (Function.update r 0 0) 4 x := by
    intro r x
    rw [Function.update_idem, show r 2 = Function.update r 0 0 2 from rfl, Function.update_eq_self]
  rw [ht₃, visible_restore hcpu]
  simp only [integerContext, hkeep, htls, hregs, hpc]
  rfl

theorem setup_sp {cpu cpu' : Cpu TrapFrame} (setup : Setup) (h : port.setupUserSignal cpu setup = some cpu') :
    (port.visible cpu').sp = setup.signalFrame := by
  simp only [port, setupUserSignal] at h
  split at h
  · cases h
  rw [← Option.some.inj h]
  rfl

/-- **riscv64**: the handler must leave the thread pointer alone, and nothing may be in the floating-point registers. -/
theorem roundTrip_iff (hd : Delivers port address context t₀ t₁) (hr : Returns port address t₁ t₂)
    (hv : Valid port t₀.cpu) :
    RoundTrip port address t₀ t₁ t₂ ↔
      t₂.cpu.frame.regs 4 = t₀.cpu.frame.regs 4 ∧ (∀ i, t₀.cpu.fp i = 0) ∧ t₀.cpu.fcsr = 0 := by
  obtain ⟨t₃, hret, hblocked, hvisible⟩ := sigreturn_visible hd hr hv
  obtain ⟨-, -, hsp, -⟩ := capture_eq hd.captured
  rw [roundTrip_iff_visible hd hret hblocked hsp (hd.handler_sp fun setup _ h => setup_sp setup h) rfl rfl, hvisible]
  constructor
  · intro hsame
    have htls := congrArg UserTrapContext.tls hsame
    have hfp := congrArg UserTrapContext.fpCallee hsame
    have hfcsr := congrArg UserTrapContext.fcsr hsame
    exact ⟨htls, fun i => (congrFun hfp i).symm, hfcsr.symm⟩
  · rintro ⟨htls, hfp, hfcsr⟩
    have hregs : Function.update (port.visible t₀.cpu).regs 4 (t₀.cpu.frame.regs 4) = (port.visible t₀.cpu).regs :=
      Function.update_eq_self (a := (4 : Fin 32)) (f := (port.visible t₀.cpu).regs)
    have hzero : (fun _ => 0) = t₀.cpu.fp := funext fun i => (hfp i).symm
    rw [htls, hregs, hzero, ← hfcsr]
    rfl

end Riscv64

/-! ## aarch64 -/

namespace Aarch64

variable {address : Nat} {t₀ t₁ t₂ : Thread TrapFrame} {context : UserTrapContext}

/-- What the machine context holds of a context: all that `restore_user_context` stores, but the thread pointer. -/
def integerContext (context : UserTrapContext) : UserTrapContext where
  regs := widen (narrow context.regs)
  pc := context.pc
  status := context.status
  sp := context.sp
  tls := 0
  fpCallee := fun _ => 0
  fcsr := 0

theorem trapContext_machineContext {words : Nat → Word}
    (h : ∀ i < port.layout.machineSize, words i = port.machineContext context i) :
    port.trapContext words = some (integerContext context) := by
  replace h : ∀ i < 548, words i = machineContext context i := h
  have hregs : (fun i : Fin 31 => words (i + 1)) = narrow context.regs := by
    funext i
    rw [h (i + 1) (by omega), machineContext, if_neg (by omega), if_neg (by omega), if_neg (by omega),
      dif_pos ⟨by omega, by omega⟩]
    rfl
  simp only [port, trapContext, hregs, h 32 (by decide), h 33 (by decide), h 34 (by decide)]
  rfl

theorem capture_eq {cpu : Cpu TrapFrame} {context : UserTrapContext}
    (h : port.captureUserContext cpu = some context) :
    context.regs = widen cpu.frame.regs ∧ context.pc = cpu.frame.elr ∧
      context.status = cpu.frame.spsr &&& userPstateMask ∧ context.sp = cpu.frame.sp ∧
      context.tls = cpu.frame.tpidr := by
  simp only [port, captureUserContext] at h
  cases h
  exact ⟨rfl, rfl, rfl, rfl, rfl⟩

theorem narrow_widen (regs : Fin 31 → Word) : narrow (widen regs) = regs := by
  funext i
  simp only [narrow, widen]
  exact dif_pos i.isLt

/-- What the program sees of a restored context. -/
theorem visible_restore {cpu cpu' : Cpu TrapFrame} {c : UserTrapContext}
    (h : port.restoreUserContext cpu c = some cpu') :
    port.visible (port.setResult cpu' (port.restoredSyscallResult c)) =
      { c with regs := widen (narrow c.regs), status := c.status &&& userPstateMask, fpCallee := cpu.fp,
               fcsr := cpu.fcsr } := by
  simp only [port, restoreUserContext] at h
  split at h
  · cases h
  cases h
  have hself : Function.update (narrow c.regs) 0 (c.regs 0) = narrow c.regs :=
    Function.update_eq_self (0 : Fin 31) (narrow c.regs)
  simp only [port, hself, BitVec.and_assoc, BitVec.and_self]

/-- The context after the return: all as before, but for the thread pointer and the floating-point registers, which are
the handler's. -/
theorem sigreturn_visible (hd : Delivers port address context t₀ t₁) (hr : Returns port address t₁ t₂)
    (hv : Valid port t₀.cpu) :
    ∃ t₃, port.sigreturn t₂ = some t₃ ∧ t₃.signals.blocked = t₀.signals.blocked ∧
      port.visible t₃.cpu = { port.visible t₀.cpu with
        tls := t₂.cpu.frame.tpidr, fpCallee := t₂.cpu.fp, fcsr := t₂.cpu.fcsr } := by
  obtain ⟨hwords, -⟩ := returned_words hd hr
  obtain ⟨active, hactive, hsp⟩ := hr.user
  obtain ⟨-, -, -, -, htls⟩ := capture_eq hactive
  obtain ⟨hregs, hpc, hstatus, hsp₀, -⟩ := capture_eq hd.captured
  have hmachine := trapContext_machineContext hwords
  obtain ⟨hvpc, hvsp, hvpa, hvsa⟩ := hv
  simp only [port] at hvpc hvsp hvpa hvsa
  have hrestore : ¬ (context.pc.toNat % 4 ≠ 0 ∨ context.sp.toNat % 16 ≠ 0) := by
    rw [hpc, hsp₀]
    omega
  obtain ⟨cpu, hcpu⟩ :
      ∃ cpu, port.restoreUserContext t₂.cpu { integerContext context with tls := active.tls } = some cpu :=
    ⟨_, if_neg hrestore⟩
  obtain ⟨t₃, hret, hblocked, ht₃⟩ := sigreturn_of_machine hd hr hactive (congrArg some hsp) hmachine
    (by simpa only [port, integerContext, hpc] using hvpc) (by simpa only [port, integerContext, hsp₀] using hvsp) hcpu
  refine ⟨t₃, hret, hblocked, ?_⟩
  rw [ht₃, visible_restore hcpu]
  simp only [integerContext, narrow_widen, htls, hregs, hpc, hstatus, hsp₀, BitVec.and_assoc, BitVec.and_self]
  rfl

theorem setup_sp {cpu cpu' : Cpu TrapFrame} (setup : Setup) (h : port.setupUserSignal cpu setup = some cpu') :
    (port.visible cpu').sp = setup.signalFrame := by
  simp only [port, setupUserSignal] at h
  split at h
  · cases h
  rw [← Option.some.inj h]
  rfl

/-- **aarch64**: the handler must leave the thread pointer and the floating-point registers as they were. -/
theorem roundTrip_iff (hd : Delivers port address context t₀ t₁) (hr : Returns port address t₁ t₂)
    (hv : Valid port t₀.cpu) :
    RoundTrip port address t₀ t₁ t₂ ↔
      t₂.cpu.frame.tpidr = t₀.cpu.frame.tpidr ∧ t₂.cpu.fp = t₀.cpu.fp ∧ t₂.cpu.fcsr = t₀.cpu.fcsr := by
  obtain ⟨t₃, hret, hblocked, hvisible⟩ := sigreturn_visible hd hr hv
  obtain ⟨-, -, -, hsp, -⟩ := capture_eq hd.captured
  rw [roundTrip_iff_visible hd hret hblocked hsp (hd.handler_sp fun setup _ h => setup_sp setup h) rfl rfl, hvisible]
  constructor
  · intro hsame
    have htls := congrArg UserTrapContext.tls hsame
    have hfp := congrArg UserTrapContext.fpCallee hsame
    have hfcsr := congrArg UserTrapContext.fcsr hsame
    exact ⟨htls, hfp, hfcsr⟩
  · rintro ⟨htls, hfp, hfcsr⟩
    rw [htls, hfp, hfcsr]
    rfl

end Aarch64

/-! ## x86_64 -/

/-- **x86_64**: the handler starts with the stack pointer at a multiple of 16, where a function expects its return address
just below one. -/
theorem X8664.not_roundTrip {address : Nat} {t₀ t₁ t₂ : Thread TrapFrame} {context : UserTrapContext}
    (hd : Delivers port address context t₀ t₁) : ¬ RoundTrip port address t₀ t₁ t₂ := by
  rintro ⟨-, -, haligned⟩
  have hstack : (port.visible t₁.cpu).sp.toNat = address := hd.handler_sp fun setup cpu h => by
    simp only [port, setupUserSignal] at h
    split at h
    · cases h
    split at h
    · cases h
    rw [← Option.some.inj h]
    rfl
  rw [hstack] at haligned
  have haddress := hd.address_le.2
  simp only [port] at haligned
  omega

/-! ## All three -/

/-- When the return undoes the delivery, for the context `before` the delivery and that `after` the handler. -/
def Faithful : (arch : Arch) → (before after : Cpu (TrapFrame arch)) → Prop
  | .riscv64, before, after => after.frame.regs 4 = before.frame.regs 4 ∧ (∀ i, before.fp i = 0) ∧ before.fcsr = 0
  | .aarch64, before, after =>
    after.frame.tpidr = before.frame.tpidr ∧ after.fp = before.fp ∧ after.fcsr = before.fcsr
  | .x86_64, _, _ => False

/-- **Delivery and return**, for every context with a valid stack, every caught signal and every handler that comes back
to the restorer with its frame unchanged. -/
theorem signal_round_trip (arch : Arch) {pid address : Nat} {mapped : Bool} {t₀ t₁ t₂ : Thread (TrapFrame arch)}
    (hd : (port arch).deliver pid mapped t₀ = (.redirected address, t₁)) (hr : Returns (port arch) address t₁ t₂)
    (hv : Valid (port arch) t₀.cpu) :
    RoundTrip (port arch) address t₀ t₁ t₂ ↔ Faithful arch t₀.cpu t₂.cpu := by
  obtain ⟨context, hdelivers⟩ := delivers_of_deliver hd
  cases arch with
  | riscv64 => exact Riscv64.roundTrip_iff hdelivers hr hv
  | aarch64 => exact Aarch64.roundTrip_iff hdelivers hr hv
  | x86_64 => exact ⟨X8664.not_roundTrip hdelivers, False.elim⟩

/-! ## A signal on riscv64 -/

namespace Riscv64

theorem zero_unblockable : (0 : Word) &&& unblockableMask = 0 := by decide

/-- SIGUSR1 with a handler is pending, and the floating-point registers are zero. -/
def sampleThread : Thread TrapFrame where
  cpu := { frame := { regs := fun i => if i = 2 then 0x20000 else 7, sstatus := 0, sepc := 0x10000 }
           fp := fun _ => 0, fcsr := 0, fsBase := 0 }
  mem := { pages := fun _ => some true, byte := fun _ => 0 }
  signals := { actions := fun _ => ⟨0x30000, 0, 0, 0⟩, blocked := 0, pending := SignalState.bit 9,
               unblockable := zero_unblockable }

/-- The thread when its handler starts. -/
def sampleHandler : Thread TrapFrame :=
  (port.redirect 1 true { sampleThread with signals := sampleThread.signals.clearPending (SignalState.bit 9) } 10
    ⟨0x30000, 0, 0, 0⟩).2

/-- Delivery to the handler, which returns at once. -/
theorem sample_deliver :
    port.deliver 1 true sampleThread = (.redirected 0x1fbc0, sampleHandler) ∧
      Returns port 0x1fbc0 sampleHandler sampleHandler := by
  have hlowest : SignalState.lowest (SignalState.bit 9 &&& ~~~0) = some 9 := by decide +kernel
  have hcaught : port.deliver 1 true sampleThread = _ :=
    Port.deliver_caught hlowest (show (0x30000 : Word) ≠ 1 by decide) (show (0x30000 : Word) ≠ 0 by decide)
  refine ⟨hcaught.trans (Prod.ext (by decide +kernel) rfl), ?_, fun k _ => rfl, by decide +kernel⟩
  have huser : (port.captureUserContext sampleHandler.cpu).any (fun c => c.sp.toNat == 0x1fbc0 + port.popped) :=
    by decide +kernel
  obtain ⟨active, hactive, hsp⟩ := (Option.any_eq_true _ _).1 huser
  exact ⟨active, hactive, by simpa using hsp⟩

theorem sample_valid : Valid port sampleThread.cpu :=
  ⟨(by decide : 0x10000 < 2 ^ 38), (by decide : 0x20000 < 2 ^ 38), (by decide : 0x10000 % 2 = 0),
    (by decide : 0x20000 % 8 = 0)⟩

end Riscv64

/-- With nothing in the floating-point registers the signal comes and goes unnoticed. -/
theorem signal_round_trip_sample :
    RoundTrip (port .riscv64) 0x1fbc0 Riscv64.sampleThread Riscv64.sampleHandler Riscv64.sampleHandler := by
  obtain ⟨hd, hr⟩ := Riscv64.sample_deliver
  have hfaithful : Faithful .riscv64 Riscv64.sampleThread.cpu Riscv64.sampleHandler.cpu :=
    ⟨(by decide +kernel : Riscv64.sampleHandler.cpu.frame.regs 4 = Riscv64.sampleThread.cpu.frame.regs 4),
      fun _ => rfl, rfl⟩
  exact (signal_round_trip .riscv64 hd hr Riscv64.sample_valid).2 hfaithful

/-! ## A signal on x86_64 -/

namespace X8664

/-- SIGUSR1 with a handler and a restorer. -/
def userAction : SignalAction := ⟨0x30000, saRestorer, 0x40000, 0⟩

/-- SIGUSR1 is pending in a program that runs at `0x10000` with its stack pointer at `0x20000`. -/
def userThread : Thread TrapFrame where
  cpu := { frame := { rax := 1, rcx := 2, rdx := 3, rbx := 4, rbp := 5, rsi := 6, rdi := 7, r8 := 8, r9 := 9, r10 := 10,
                      r11 := 11, r12 := 12, r13 := 13, r14 := 14, r15 := 15, rip := 0x10000, cs := 0x1b, rflags := 0x202,
                      rsp := 0x20000, ss := 0x23 }
           fp := fun _ => 0, fcsr := 0, fsBase := 0x50000 }
  mem := { pages := fun _ => some true, byte := fun _ => 0 }
  signals := { actions := fun _ => userAction, blocked := 0, pending := SignalState.bit 9,
               unblockable := Riscv64.zero_unblockable }

/-- The thread when its handler starts. -/
def userHandler : Thread TrapFrame :=
  (port.redirect 1 true { userThread with signals := userThread.signals.clearPending (SignalState.bit 9) } 10
    userAction).2

/-- The handler returned: `ret` took the restorer off the stack. -/
def userReturn : Thread TrapFrame :=
  { userHandler with
    cpu := { userHandler.cpu with
      frame := { userHandler.cpu.frame with rip := userAction.restorer, rsp := userHandler.cpu.frame.rsp + 8 } } }

theorem user_deliver :
    port.deliver 1 true userThread = (.redirected 0x1fe40, userHandler) ∧
      Returns port 0x1fe40 userHandler userReturn := by
  have hlowest : SignalState.lowest (SignalState.bit 9 &&& ~~~0) = some 9 := by decide +kernel
  have hcaught : port.deliver 1 true userThread = _ :=
    Port.deliver_caught hlowest (show (0x30000 : Word) ≠ 1 by decide) (show (0x30000 : Word) ≠ 0 by decide)
  refine ⟨hcaught.trans (Prod.ext (by decide +kernel) rfl), ?_, fun k _ => rfl, by decide +kernel⟩
  have huser : (port.captureUserContext userReturn.cpu).any (fun c => c.sp.toNat == 0x1fe40 + port.popped) :=
    by decide +kernel
  obtain ⟨active, hactive, hsp⟩ := (Option.any_eq_true _ _).1 huser
  exact ⟨active, hactive, by simpa using hsp⟩

end X8664

/-- The frame ends at the interrupted stack pointer, over the red zone, and the handler starts at a multiple of 16. -/
theorem signal_over_red_zone :
    X8664.port.deliver 1 true X8664.userThread = (.redirected 0x1fe40, X8664.userHandler) ∧
    Returns X8664.port 0x1fe40 X8664.userHandler X8664.userReturn ∧ Valid X8664.port X8664.userThread.cpu ∧
    0x1fe40 + 8 * X8664.port.layout.size = (X8664.port.visible X8664.userThread.cpu).sp.toNat ∧
    (X8664.port.visible X8664.userHandler.cpu).sp.toNat % 16 = 0 ∧
    ¬ RoundTrip X8664.port 0x1fe40 X8664.userThread X8664.userHandler X8664.userReturn := by
  obtain ⟨hd, hr⟩ := X8664.user_deliver
  have hvalid : Valid X8664.port X8664.userThread.cpu :=
    ⟨(by decide : 0x10000 < 2 ^ 47), (by decide : 0x20000 < 2 ^ 47), Nat.mod_one _, Nat.mod_one _⟩
  refine ⟨hd, hr, hvalid, by decide +kernel, by decide +kernel, ?_⟩
  obtain ⟨context, hdelivers⟩ := delivers_of_deliver hd
  exact X8664.not_roundTrip hdelivers

end Koros.Signal
