import Koros.Signal.Context

/-!
# Signal delivery and return

`korix_deliver_pending_signal` and `sys_rt_sigreturn` of `korix/src/syscall/mod.rs`, on the checked user memory of
`syscall/user_mem.rs`. A `Thread` is what they work on: the CPU with its trap frame, the user memory and the process's
signal state.

- `deliver_redirected`: what a delivery that redirects to a handler did, with the loop over ignored signals gone;
- `word_write`: a frame is read back as it was written.
-/
set_option autoImplicit false

namespace Koros.Signal

open Koros.Lib

/-! ## User memory -/

def pageSize : Nat := 4096

/-- The user part of the active address space. -/
structure UserMem where
  /-- Mapped pages, by page number, and whether they are writable. -/
  pages : Nat → Option Bool
  byte : Bytes

namespace UserMem

/-- `AddressSpace::validate_range`. -/
def validateRange (m : UserMem) (limit address length : Nat) (write : Bool) : Bool :=
  if length = 0 then address < limit
  else
    let first := address / pageSize
    let last := (address + length - 1) / pageSize
    address < limit && address + length ≤ limit && (List.range' first (last + 1 - first)).all fun page =>
      match m.pages page with
      | none => false
      | some writable => !write || writable

/-- `check_range`. -/
def checkRange (m : UserMem) (limit address length : Nat) (write : Bool) : Bool :=
  address ≠ 0 && m.validateRange limit address length write

/-- Word `i` of the structure at `address`. -/
def word (m : UserMem) (address i : Nat) : Word := BitVec.ofNat 64 (leNat m.byte (address + 8 * i) 8)

/-- The bytes of a structure given by its words. -/
def wordBytes (words : Nat → Word) : Bytes := fun k => toLe (words (k / 8)).toNat (k % 8)

/-- Store a structure of `size` words. -/
def write (m : UserMem) (address size : Nat) (words : Nat → Word) : UserMem :=
  { m with byte := blit m.byte address (8 * size) (wordBytes words) }

end UserMem

/-! ## Signal state -/

def sigDfl : Word := 0

def sigIgn : Word := 1

/-- SIGKILL and SIGSTOP. -/
def unblockableMask : Word := (1 <<< 8) ||| (1 <<< 18)

def emptySignalAction : SignalAction := ⟨sigDfl, 0, 0, 0⟩

/-- Dispositions, blocked mask and pending set of a process. Every store to `blocked` takes the unblockable signals out. -/
structure SignalState where
  actions : Nat → SignalAction
  blocked : Word
  pending : Word
  unblockable : blocked &&& unblockableMask = 0

theorem and_not_and_self (x y : Word) : x &&& ~~~y &&& y = 0 := by
  ext i hi
  simp

namespace SignalState

def setBlocked (s : SignalState) (mask : Word) : SignalState :=
  { s with blocked := mask &&& ~~~unblockableMask, unblockable := and_not_and_self _ _ }

/-- Take a signal out of the pending set. -/
def clearPending (s : SignalState) (bit : Word) : SignalState := { s with pending := s.pending &&& ~~~bit }

def setAction (s : SignalState) (signal : Nat) (action : SignalAction) : SignalState :=
  { s with actions := Function.update s.actions signal action }

/-- `1 << i`. -/
def bit (i : Nat) : Word := BitVec.twoPow 64 i

/-- `trailing_zeros` of a set that is not empty. -/
def lowest (set : Word) : Option Nat := (List.range 64).find? fun i => set.getLsbD i

/-- The signals to block while the handler runs. -/
def handlerMask (s : SignalState) (action : SignalAction) (bit : Word) : Word :=
  let blocked := s.blocked ||| action.mask
  if action.flags &&& saNodefer = 0 then blocked ||| bit else blocked

end SignalState

/-- What delivery and return work on. -/
structure Thread (F : Type) where
  cpu : Cpu F
  mem : UserMem
  signals : SignalState

/-- How `korix_deliver_pending_signal` ended. It returns `None` for the first and the last. -/
inductive Outcome where
  | idle
  | fatal (status : Nat)
  /-- The frame at `address` is written and the trap frame redirected to the handler. -/
  | redirected (address : Nat)
deriving DecidableEq, Repr

section Code

variable {F : Type}

/-- The words of the `LinuxRtSignalFrame` that is written; padding is zero. -/
def Port.signalFrame (P : Port F) (restorer : Word) (signal pid : Nat) (context : UserTrapContext) (mask : Word)
    (i : Nat) : Word :=
  let l := P.layout
  if l.machine ≤ i ∧ i < l.machine + l.machineSize then P.machineContext context (i - l.machine)
  else if i = l.mask then mask
  else if l.restorer = some i then restorer
  else if i = l.info then BitVec.ofNat 64 signal
  else if i = l.info + 2 then BitVec.ofNat 64 (pid % 2 ^ 32)
  else if i = l.context then P.ucontextFlags
  else 0

/-- `korix_deliver_pending_signal` for a signal with a handler. -/
def Port.redirect (P : Port F) (pid : Nat) (mapped : Bool) (t : Thread F) (signal : Nat) (action : SignalAction) :
    Outcome × Thread F :=
  match P.captureUserContext t.cpu with
  | none => (.idle, t)
  | some context =>
    let frameSize := 8 * P.layout.size
    if context.sp.toNat < frameSize then (.fatal (128 + 11), t)
    else
      -- `(sp - frame_size) & !15`
      let address := (context.sp.toNat - frameSize) / 16 * 16
      if !t.mem.checkRange P.addressLimit address frameSize true then (.fatal (128 + 11), t)
      else
        let words := P.signalFrame action.restorer signal pid context t.signals.blocked
        let t := { t with mem := t.mem.write address P.layout.size words }
        match P.signalRestorer action mapped with
        | none => (.fatal (128 + 11), t)
        | some restorer =>
          let signals := if action.flags &&& saResethand ≠ 0 then t.signals.setAction signal emptySignalAction else t.signals
          let t := { t with signals := signals.setBlocked (signals.handlerMask action (SignalState.bit (signal - 1))) }
          match P.setupUserSignal t.cpu
            { handler := action.handler, restorer := restorer, signalFrame := BitVec.ofNat 64 address, signal := BitVec.ofNat 64 signal,
              siginfo := BitVec.ofNat 64 (address + 8 * P.layout.info),
              ucontext := BitVec.ofNat 64 (address + 8 * P.layout.context) } with
          | none => (.fatal (128 + 11), t)
          | some cpu => (.redirected address, { t with cpu := cpu })

theorem SignalState.lowest_spec {set : Word} {i : Nat} (h : lowest set = some i) : set.getLsbD i = true :=
  List.find?_some h

/-- The loop over the pending signals ends: each round takes one out. -/
theorem clearPending_lt {s : SignalState} {i : Nat} (h : (s.pending &&& ~~~s.blocked).getLsbD i = true) :
    (s.clearPending (SignalState.bit i)).pending.toNat < s.pending.toNat := by
  have hi : i < 64 := BitVec.lt_of_getLsbD h
  have hp : s.pending.getLsbD i = true := by
    rw [BitVec.getLsbD_and, Bool.and_eq_true] at h
    exact h.1
  have hle : (s.pending &&& ~~~SignalState.bit i).toNat ≤ s.pending.toNat := by
    rw [BitVec.toNat_and]
    exact Nat.and_le_left
  refine Nat.lt_of_le_of_ne hle fun heq => ?_
  have hbit := congrArg (BitVec.getLsbD · i) (BitVec.eq_of_toNat_eq heq)
  simp only [SignalState.clearPending, BitVec.getLsbD_and, BitVec.getLsbD_not, SignalState.bit,
    BitVec.getLsbD_twoPow, hp, hi] at hbit
  simp at hbit

/-- `korix_deliver_pending_signal`. -/
def Port.deliver (P : Port F) (pid : Nat) (mapped : Bool) (t : Thread F) : Outcome × Thread F :=
  match h : SignalState.lowest (t.signals.pending &&& ~~~t.signals.blocked) with
  | none => (.idle, t)
  | some i =>
    let signal := i + 1
    let action := t.signals.actions signal
    let t' := { t with signals := t.signals.clearPending (SignalState.bit i) }
    if action.handler = sigIgn then P.deliver pid mapped t'
    else if action.handler = sigDfl ∧ signal = 17 then P.deliver pid mapped t'
    else if action.handler = sigDfl then (.fatal (128 + signal), t')
    else P.redirect pid mapped t' signal action
termination_by t.signals.pending.toNat
decreasing_by all_goals exact clearPending_lt (SignalState.lowest_spec h)

/-- The first deliverable signal has a handler. -/
theorem Port.deliver_caught {P : Port F} {pid : Nat} {mapped : Bool} {t : Thread F} {i : Nat}
    (hi : SignalState.lowest (t.signals.pending &&& ~~~t.signals.blocked) = some i)
    (hign : (t.signals.actions (i + 1)).handler ≠ sigIgn) (hdfl : (t.signals.actions (i + 1)).handler ≠ sigDfl) :
    P.deliver pid mapped t = P.redirect pid mapped
      { t with signals := t.signals.clearPending (SignalState.bit i) } (i + 1) (t.signals.actions (i + 1)) := by
  rw [Port.deliver]
  split
  · next hnone => simp [hnone] at hi
  · next j hj =>
    obtain rfl : j = i := Option.some.inj (hj.symm.trans hi)
    dsimp only
    rw [if_neg hign, if_neg (fun h => hdfl h.1), if_neg hdfl]

/-- `sys_rt_sigreturn` and the store of its result; `none` when the process is killed instead. -/
def Port.sigreturn (P : Port F) (t : Thread F) : Option (Thread F) :=
  match P.captureUserContext t.cpu with
  | none => none
  | some active =>
    match P.signalFrameAddress active with
    | none => none
    | some address =>
      if !t.mem.checkRange P.addressLimit address (8 * P.layout.size) false then none
      else
        match P.trapContext fun i => t.mem.word address (P.layout.machine + i) with
        | none => none
        | some machine =>
          let restored := { machine with tls := active.tls }
          if P.addressLimit ≤ restored.pc.toNat ∨ P.addressLimit ≤ restored.sp.toNat then none
          else
            match P.restoreUserContext t.cpu restored with
            | none => none
            | some cpu =>
              some { t with
                signals := t.signals.setBlocked (t.mem.word address P.layout.mask)
                cpu := P.setResult cpu (P.restoredSyscallResult restored) }

/-! ## Reading a structure back -/

section Words

variable {m m' : UserMem} {address size i : Nat}

theorem leNat_wordBytes (words : Nat → Word) (i : Nat) : leNat (UserMem.wordBytes words) (8 * i) 8 = (words i).toNat := by
  have hcongr : leNat (dropBytes (UserMem.wordBytes words) (8 * i)) 0 8 = leNat (toLe (words i).toNat) 0 8 := by
    apply leNat_congr
    intro j _ hj
    simp only [dropBytes, UserMem.wordBytes]
    rw [show (8 * i + j) / 8 = i by omega, show (8 * i + j) % 8 = j by omega]
  rw [leNat_dropBytes, Nat.add_zero] at hcongr
  rw [hcongr, leNat_toLe, Nat.pow_zero, Nat.div_one]
  exact Nat.mod_eq_of_lt (words i).isLt

theorem word_write {words : Nat → Word} (hi : i < size) : (m.write address size words).word address i = words i := by
  simp only [UserMem.word, UserMem.write]
  rw [leNat_blit_inside (by omega) (by omega), Nat.add_sub_cancel_left, leNat_wordBytes]
  simp

/-- A word depends on its eight bytes only. -/
theorem word_congr (h : ∀ k < 8 * size, m'.byte (address + k) = m.byte (address + k)) (hi : i < size) :
    m'.word address i = m.word address i := by
  simp only [UserMem.word]
  rw [leNat_congr fun j h₁ h₂ => ?_]
  have hj := h (j - address) (by omega)
  rwa [show address + (j - address) = j by omega] at hj

end Words

/-! ## What the two calls did -/

/-- A return to user mode: the frame was readable, and its context passed the checks. -/
theorem sigreturn_cases {P : Port F} {t t' : Thread F} (h : P.sigreturn t = some t') :
    ∃ active address machine cpu, P.captureUserContext t.cpu = some active ∧
      P.signalFrameAddress active = some address ∧
      P.trapContext (fun i => t.mem.word address (P.layout.machine + i)) = some machine ∧
      machine.pc.toNat < P.addressLimit ∧ machine.sp.toNat < P.addressLimit ∧
      P.restoreUserContext t.cpu { machine with tls := active.tls } = some cpu ∧
      t' = { t with
        signals := t.signals.setBlocked (t.mem.word address P.layout.mask)
        cpu := P.setResult cpu (P.restoredSyscallResult { machine with tls := active.tls }) } := by
  unfold Port.sigreturn at h
  split at h
  · cases h
  next active hactive =>
  split at h
  · cases h
  next address haddress =>
  split at h
  · cases h
  split at h
  · cases h
  next machine hmachine =>
  dsimp only at h
  split at h
  · cases h
  next hlimit =>
  split at h
  · cases h
  next cpu hcpu =>
  cases h
  rw [not_or, Nat.not_le, Nat.not_le] at hlimit
  exact ⟨active, address, machine, cpu, hactive, haddress, hmachine, hlimit.1, hlimit.2, hcpu, rfl⟩

/-- A redirection wrote the frame below the stack pointer and set the handler up. -/
theorem redirect_redirected {P : Port F} {pid : Nat} {mapped : Bool} {t t' : Thread F} {signal address : Nat}
    {action : SignalAction} (h : P.redirect pid mapped t signal action = (.redirected address, t')) :
    ∃ context setup, P.captureUserContext t.cpu = some context ∧ 8 * P.layout.size ≤ context.sp.toNat ∧
      address = (context.sp.toNat - 8 * P.layout.size) / 16 * 16 ∧
      t.mem.checkRange P.addressLimit address (8 * P.layout.size) true = true ∧
      t'.mem = t.mem.write address P.layout.size
        (P.signalFrame action.restorer signal pid context t.signals.blocked) ∧
      setup.signalFrame = BitVec.ofNat 64 address ∧ P.setupUserSignal t.cpu setup = some t'.cpu := by
  unfold Port.redirect at h
  split at h
  · cases h
  next context hcontext =>
  dsimp only at h
  split at h
  · cases h
  next hsize =>
  split at h
  · cases h
  next hrange =>
  split at h
  · cases h
  split at h
  · cases h
  next cpu hcpu =>
  cases h
  exact ⟨context, _, hcontext, Nat.not_lt.1 hsize, rfl, by simpa using hrange, rfl, rfl, hcpu⟩

/-- A delivery that redirects does so for the first signal that is not ignored; the rounds before it only take signals
out of the pending set. -/
theorem deliver_redirected {P : Port F} {pid : Nat} {mapped : Bool} {t t' : Thread F} {address : Nat}
    (h : P.deliver pid mapped t = (.redirected address, t')) :
    ∃ t₀ signal action, P.redirect pid mapped t₀ signal action = (.redirected address, t') ∧ t₀.cpu = t.cpu ∧
      t₀.mem = t.mem ∧ t₀.signals.blocked = t.signals.blocked := by
  fun_induction Port.deliver P pid mapped t with
  | case1 t hnone => cases h
  | case2 t i hi signal action t₁ hign ih =>
    obtain ⟨t₀, signal', action', h₀, hcpu, hmem, hblocked⟩ := ih h
    exact ⟨t₀, signal', action', h₀, hcpu, hmem, hblocked⟩
  | case3 t i hi signal action t₁ _ hchld ih =>
    obtain ⟨t₀, signal', action', h₀, hcpu, hmem, hblocked⟩ := ih h
    exact ⟨t₀, signal', action', h₀, hcpu, hmem, hblocked⟩
  | case4 => cases h
  | case5 t i hi signal action t₁ => exact ⟨t₁, signal, action, h, rfl, rfl, rfl⟩

end Code

end Koros.Signal
