import Koros.Signal.Unblockable

/-!
# Signals at the return to user mode

`handle_syscall` of x86_64 asks `user_trap_status` before it returns; the other ways out of a system call do not. Signal
`i + 1` is bit `i` of the masks.

- `deliver_spec`: how a delivery ends, and what it leaves pending;
- `leave_acted`: a return has acted on the pending signals exactly when `Settles` held before it;
- **`signals_acted_on`**: so it is in every run whose returns meet that condition;
- `sigkill_survives_ecall`: on riscv64 a process returns to user mode with SIGKILL pending.
-/
set_option autoImplicit false

namespace Koros.Signal

open Koros.Lib

/-! ## What there is to act on -/

namespace SignalState

variable {s : SignalState} {i k : Nat}

/-- The delivery loop drops the signal. -/
def Ignored (s : SignalState) (i : Nat) : Prop :=
  (s.actions (i + 1)).handler = sigIgn ∨ (s.actions (i + 1)).handler = sigDfl ∧ i + 1 = 17

/-- The signal has a handler. -/
def Caught (s : SignalState) (i : Nat) : Prop :=
  (s.actions (i + 1)).handler ≠ sigDfl ∧ (s.actions (i + 1)).handler ≠ sigIgn

/-- The signal is pending and not blocked. -/
def Deliverable (s : SignalState) (i : Nat) : Prop := s.pending.getLsbD i = true ∧ s.blocked.getLsbD i = false

/-- The signal is pending, not blocked and not ignored. -/
def Actionable (s : SignalState) (i : Nat) : Prop := s.Deliverable i ∧ ¬ s.Ignored i

/-- The first signal to act on has a handler. -/
def FirstCaught (s : SignalState) (k : Nat) : Prop := s.Actionable k ∧ s.Caught k ∧ ∀ i < k, ¬ s.Actionable i

theorem deliverable_iff : (s.pending &&& ~~~s.blocked).getLsbD i = true ↔ s.Deliverable i := by
  unfold Deliverable
  rw [BitVec.getLsbD_and, BitVec.getLsbD_not, Bool.and_eq_true, Bool.and_eq_true, Bool.not_eq_true',
    decide_eq_true_eq]
  exact ⟨fun h => ⟨h.1, h.2.2⟩, fun h => ⟨h.1, BitVec.lt_of_getLsbD h.1, h.2⟩⟩

theorem not_deliverable_of_lowest (h : lowest (s.pending &&& ~~~s.blocked) = none) (i : Nat) : ¬ s.Deliverable i := by
  intro hi
  have hbit := deliverable_iff.2 hi
  have hnone := List.find?_eq_none.1 h i (List.mem_range.2 (BitVec.lt_of_getLsbD hbit))
  exact hnone hbit

theorem lowest_le (h : lowest (s.pending &&& ~~~s.blocked) = some i) (hk : s.Deliverable k) : i ≤ k := by
  by_contra hlt
  obtain ⟨-, -, hbefore⟩ := List.find?_range_eq_some.1 h
  have hnot := hbefore k (Nat.not_le.1 hlt)
  rw [deliverable_iff.2 hk] at hnot
  cases hnot

theorem clearPending_getLsbD : (s.clearPending (bit k)).pending.getLsbD i = (s.pending.getLsbD i && decide (i ≠ k)) := by
  simp only [clearPending, bit, BitVec.getLsbD_and, BitVec.getLsbD_not, BitVec.getLsbD_twoPow]
  cases hp : s.pending.getLsbD i with
  | false => rfl
  | true =>
    have hi := BitVec.lt_of_getLsbD hp
    by_cases hik : i = k
    · simp [hik, hik ▸ hi]
    · simp [hik, hi, Ne.symm hik]

/-- Taking out an ignored signal changes nothing for the others. -/
theorem actionable_clearPending (hk : s.Ignored k) :
    (s.clearPending (bit k)).Actionable i ↔ s.Actionable i := by
  unfold Actionable Deliverable
  rw [clearPending_getLsbD]
  constructor
  · rintro ⟨⟨hp, hb⟩, hi⟩
    rw [Bool.and_eq_true] at hp
    exact ⟨⟨hp.1, hb⟩, hi⟩
  · rintro ⟨⟨hp, hb⟩, hi⟩
    have hne : i ≠ k := by
      rintro rfl
      exact hi hk
    exact ⟨⟨by simp [hp, hne], hb⟩, hi⟩

theorem firstCaught_clearPending (hk : s.Ignored k) {j : Nat} :
    (s.clearPending (bit k)).FirstCaught j ↔ s.FirstCaught j := by
  unfold FirstCaught
  simp only [actionable_clearPending hk]
  rfl

/-- The mask of a handler keeps what was blocked. -/
theorem blocked_setBlocked {mask : Word} (hmask : ∀ i, s.blocked.getLsbD i = true → mask.getLsbD i = true)
    (h : s.blocked.getLsbD i = true) : (s.setBlocked mask).blocked.getLsbD i = true := by
  have hun : unblockableMask.getLsbD i = false := by
    have hand := congrArg (BitVec.getLsbD · i) s.unblockable
    simpa [BitVec.getLsbD_and, h] using hand
  simp only [setBlocked, BitVec.getLsbD_and, BitVec.getLsbD_not, hmask i h, hun, BitVec.lt_of_getLsbD h, decide_true,
    Bool.not_false, Bool.and_self]

theorem getLsbD_handlerMask (action : SignalAction) (b : Word) (h : s.blocked.getLsbD i = true) :
    (s.handlerMask action b).getLsbD i = true := by
  unfold handlerMask
  dsimp only
  split <;> simp [BitVec.getLsbD_or, h]

end SignalState

/-! ## How a delivery ends -/

section Deliver

variable {F : Type} {P : Port F} {pid : Nat} {mapped : Bool} {t t' : Thread F} {o : Outcome}

/-- Setting a handler up leaves the pending set alone and only adds to the mask. -/
theorem redirect_cases {signal : Nat} {action : SignalAction} {context : UserTrapContext}
    (hcap : P.captureUserContext t.cpu = some context) (h : P.redirect pid mapped t signal action = (o, t')) :
    (∃ status, o = .fatal status) ∨
    (∃ address setup, o = .redirected address ∧ setup.handler = action.handler ∧
      P.setupUserSignal t.cpu setup = some t'.cpu ∧ t'.signals.pending = t.signals.pending ∧
      ∀ i, t.signals.blocked.getLsbD i = true → t'.signals.blocked.getLsbD i = true) := by
  simp only [Port.redirect, hcap] at h
  split at h
  · cases h
    exact .inl ⟨_, rfl⟩
  split at h
  · cases h
    exact .inl ⟨_, rfl⟩
  split at h
  · cases h
    exact .inl ⟨_, rfl⟩
  split at h
  · cases h
    exact .inl ⟨_, rfl⟩
  next cpu hcpu =>
  cases h
  refine .inr ⟨_, _, rfl, rfl, hcpu, ?_, fun i hi => ?_⟩
  · dsimp only
    split <;> rfl
  · refine SignalState.blocked_setBlocked (fun j hj => SignalState.getLsbD_handlerMask _ _ hj) ?_
    split <;> exact hi

/-- How a delivery into a frame of user mode ends. -/
inductive Delivered (P : Port F) (t : Thread F) (t' : Thread F) : Outcome → Prop
  /-- There was nothing to act on. -/
  | idle (hnone : ∀ i, ¬ t.signals.Actionable i) (hleft : ∀ i, ¬ t'.signals.Deliverable i) : Delivered P t t' .idle
  | fatal (status : Nat) : Delivered P t t' (.fatal status)
  /-- The first signal to act on was `k + 1`, and its handler is set up. -/
  | redirected (k address : Nat) (setup : Setup) (hfirst : t.signals.FirstCaught k)
      (hhandler : setup.handler = (t.signals.actions (k + 1)).handler)
      (hsetup : P.setupUserSignal t.cpu setup = some t'.cpu) (hk : t'.signals.pending.getLsbD k = false)
      (hleft : ∀ i, t'.signals.Deliverable i → k < i ∧ t.signals.pending.getLsbD i = true)
      (hkept : ∀ i, k < i → t.signals.pending.getLsbD i = true → t'.signals.pending.getLsbD i = true) :
      Delivered P t t' (.redirected address)

/-- The rounds of the loop for the ignored signals do not show. -/
theorem Delivered.of_clearPending {i : Nat} (hi : SignalState.lowest (t.signals.pending &&& ~~~t.signals.blocked) = some i)
    (hign : t.signals.Ignored i)
    (h : Delivered P { t with signals := t.signals.clearPending (SignalState.bit i) } t' o) : Delivered P t t' o := by
  cases h with
  | idle hnone hleft =>
    exact .idle (fun j hj => hnone j ((SignalState.actionable_clearPending hign).2 hj)) hleft
  | fatal status => exact .fatal status
  | redirected k address setup hfirst hhandler hsetup hk hleft hkept =>
    have hfirst' := (SignalState.firstCaught_clearPending hign).1 hfirst
    have hik : i ≤ k := SignalState.lowest_le hi hfirst'.1.1
    refine .redirected k address setup hfirst' hhandler hsetup hk (fun j hj => ?_) (fun j hj hp => hkept j hj ?_)
    · obtain ⟨hlt, hp⟩ := hleft j hj
      rw [SignalState.clearPending_getLsbD, Bool.and_eq_true] at hp
      exact ⟨hlt, hp.1⟩
    · rw [SignalState.clearPending_getLsbD, hp]
      simpa using (show j ≠ i by omega)

theorem deliver_spec {context : UserTrapContext} (hcap : P.captureUserContext t.cpu = some context)
    (h : P.deliver pid mapped t = (o, t')) : Delivered P t t' o := by
  fun_induction Port.deliver P pid mapped t with
  | case1 t hnone =>
    cases h
    have hleft := SignalState.not_deliverable_of_lowest hnone
    exact .idle (fun i hi => hleft i hi.1) hleft
  | case2 t i hi signal action t₁ hign ih => exact .of_clearPending hi (.inl hign) (ih hcap h)
  | case3 t i hi signal action t₁ _ hchld ih => exact .of_clearPending hi (.inr hchld) (ih hcap h)
  | case4 t i hi signal action t₁ _ _ _ =>
    obtain ⟨rfl, -⟩ := Prod.mk.inj h
    exact .fatal _
  | case5 t i hi signal action t₁ hign hchld hdfl =>
    have hcap₁ : P.captureUserContext t₁.cpu = some context := hcap
    rcases redirect_cases hcap₁ h with ⟨status, rfl⟩ | ⟨address, setup, rfl, hhandler, hsetup, hpending, hblocked⟩
    · exact .fatal _
    have hdel : t.signals.Deliverable i := SignalState.deliverable_iff.1 (SignalState.lowest_spec hi)
    have hfirst : t.signals.FirstCaught i :=
      ⟨⟨hdel, fun h => h.elim hign hchld⟩, ⟨hdfl, hign⟩, fun j hj hact =>
        absurd (SignalState.lowest_le hi hact.1) (Nat.not_le.2 hj)⟩
    have hbit : ∀ j, t'.signals.pending.getLsbD j = (t.signals.pending.getLsbD j && decide (j ≠ i)) := fun j => by
      rw [hpending]
      exact SignalState.clearPending_getLsbD
    refine .redirected i address setup hfirst hhandler hsetup (by simp [hbit]) (fun j hj => ?_) (fun j hj hp => ?_)
    · obtain ⟨hp, hb⟩ := hj
      rw [hbit, Bool.and_eq_true, decide_eq_true_eq] at hp
      have hb' : t.signals.blocked.getLsbD j = false := by
        by_contra hne
        rw [hblocked j (Bool.eq_true_of_not_eq_false hne)] at hb
        cases hb
      have hle := SignalState.lowest_le hi ⟨hp.1, hb'⟩
      exact ⟨by omega, hp.1⟩
    · rw [hbit, hp]
      simpa using (show j ≠ i by omega)

end Deliver

/-! ## The return -/

section Leave

variable {arch : Arch} {w w' : World arch} {pid k : Nat} {mapped : Bool} {p p' : Process arch} {entry : Entry}

/-- A handler for signal `k + 1` was just set up. -/
def HandlerSetUp (p p' : Process arch) (k : Nat) : Prop :=
  p.signals.Actionable k ∧ p.signals.Caught k ∧ p'.signals.pending.getLsbD k = false ∧
    ((port arch).visible p'.thread.cpu).pc = (p.signals.actions (k + 1)).handler

/-- What is asked of a return to user mode from `p` to `p'`. -/
def ActedOn (p p' : Process arch) : Prop :=
  (∀ i, p'.signals.Actionable i → ∃ k < i, HandlerSetUp p p' k) ∧ p'.signals.pending.getLsbD (sigkill - 1) = false

/-- The condition on the state before the return: the native way out finds no handler to run before SIGKILL, and the
others find nothing to act on. -/
def Settles : Entry → SignalState → Prop
  | .native, s => s.pending.getLsbD (sigkill - 1) = true → ∀ k < sigkill - 1, ¬ s.FirstCaught k
  | .gate, s | .fork, s => ∀ i, ¬ s.Actionable i

/-- The handler starts at its first instruction. -/
theorem setupUserSignal_pc {cpu cpu' : Cpu (TrapFrame arch)} {setup : Setup}
    (h : (port arch).setupUserSignal cpu setup = some cpu') : ((port arch).visible cpu').pc = setup.handler := by
  cases arch with
  | riscv64 =>
    simp only [port, Riscv64.port, Riscv64.setupUserSignal] at h ⊢
    split at h
    · cases h
    · cases h
      rfl
  | aarch64 =>
    simp only [port, Aarch64.port, Aarch64.setupUserSignal] at h ⊢
    split at h
    · cases h
    · cases h
      rfl
  | x86_64 =>
    simp only [port, X8664.port, X8664.setupUserSignal] at h ⊢
    split at h
    · cases h
    split at h
    · cases h
    · cases h
      rfl

/-- A pending SIGKILL is always to be acted on. -/
theorem SignalState.Guarded.actionable {s : SignalState} (hs : s.Guarded)
    (h : s.pending.getLsbD (sigkill - 1) = true) : s.Actionable (sigkill - 1) := by
  refine ⟨⟨h, s.blocked_false.1⟩, ?_⟩
  have hdfl : (s.actions (sigkill - 1 + 1)).handler = sigDfl := congrArg SignalAction.handler hs.1
  rintro (hign | ⟨-, hsig⟩)
  · rw [hdfl] at hign
    exact absurd hign (by decide)
  · exact absurd hsig (by decide)

/-- A return that asks nothing. -/
theorem acted_of_same (hs : p.signals.Guarded) (hsame : p'.signals = p.signals) :
    ActedOn p p' ↔ ∀ i, ¬ p.signals.Actionable i := by
  constructor
  · rintro ⟨hact, -⟩ i hi
    obtain ⟨k, -, hk, -, hgone, -⟩ := hact i (hsame ▸ hi)
    rw [hsame, hk.1.1] at hgone
    cases hgone
  · intro hnone
    refine ⟨fun i hi => absurd (hsame ▸ hi) (hnone i), ?_⟩
    by_contra hkill
    rw [hsame, Bool.not_eq_false] at hkill
    exact hnone _ (hs.actionable hkill)

/-- A return through `user_trap_status`. -/
theorem acted_of_delivered {o : Outcome} (hd : Delivered (port arch) p.thread p'.thread o)
    (ho : ∀ status, o ≠ .fatal status) : ActedOn p p' ↔ Settles .native p.signals := by
  have hunblocked := (p'.signals).blocked_false.1
  cases hd with
  | idle hnone hleft =>
    refine ⟨fun _ _ k _ hfirst => hnone k hfirst.1, fun _ => ⟨fun i hi => absurd hi.1 (hleft i), ?_⟩⟩
    by_contra hkill
    exact hleft _ ⟨Bool.eq_true_of_not_eq_false hkill, hunblocked⟩
  | fatal status => exact absurd rfl (ho status)
  | redirected k address setup hfirst hhandler hsetup hk hleft hkept =>
    have hset : HandlerSetUp p p' k := ⟨hfirst.1, hfirst.2.1, hk, (setupUserSignal_pc hsetup).trans hhandler⟩
    constructor
    · rintro ⟨-, hgone⟩ hkill j hj hj'
      -- there is one first signal
      have hjk : k ≤ j := by
        by_contra hlt
        exact hfirst.2.2 j (Nat.not_le.1 hlt) hj'.1
      rw [show p'.signals.pending.getLsbD (sigkill - 1) = true from hkept _ (by omega) hkill] at hgone
      cases hgone
    · intro hsettles
      refine ⟨fun i hi => ⟨k, (hleft i hi.1).1, hset⟩, ?_⟩
      by_contra hkill
      obtain ⟨hlt, hpending⟩ := hleft _ ⟨Bool.eq_true_of_not_eq_false hkill, hunblocked⟩
      exact hsettles hpending k hlt hfirst

/-- A signal to another process. -/
theorem exitCurrent_phase (w : World arch) (pid : Nat) (p : Process arch) {q : Process arch}
    (h : (w.exitCurrent pid p).process pid = some q) : q.phase = .zombie := by
  have hself : (w.set pid { p with phase := .zombie }).process pid = some { p with phase := .zombie } := World.set_self ..
  unfold World.exitCurrent at h
  dsimp only at h
  split at h
  · obtain ⟨q', hq', hphase⟩ := post_phase p.parent 17 hself
    obtain rfl : q = q' := Option.some.inj (h.symm.trans hq')
    exact hphase
  · rw [hself] at h
    cases h
    rfl

/-- **A return acts on the pending signals exactly when `Settles` holds before it.** -/
theorem leave_acted (hs : p.signals.Guarded) (hf : p.FrameOk) (hphase : p.phase = .returning entry)
    (hp' : (w.leave pid p entry mapped).process pid = some p') (huser : p'.phase = .user) :
    ActedOn p p' ↔ Settles entry p.signals := by
  cases entry with
  | native =>
    obtain ⟨context, hcap⟩ := (hf (by rw [hphase]; rfl)).capture
    simp only [World.leave] at hp'
    split at hp'
    · rw [exitCurrent_phase _ _ _ hp'] at huser
      cases huser
    · next o t hne ho =>
      rw [World.set_self] at hp'
      cases hp'
      refine acted_of_delivered (deliver_spec hcap ho) fun status he => ?_
      subst he
      exact hne _ rfl
  | gate =>
    rw [World.leave, World.set_self] at hp'
    cases hp'
    exact acted_of_same hs rfl
  | fork =>
    rw [World.leave, World.set_self] at hp'
    cases hp'
    exact acted_of_same hs rfl

/-! ## Every run -/

/-- The returns of a run that end in user mode have acted on the pending signals. -/
def ReturnsActed (w : World arch) (e : Event arch) (w' : World arch) : Prop :=
  ∀ pid mapped p p', e = .leave pid mapped → w.process pid = some p → w'.process pid = some p' → p'.phase = .user →
    ActedOn p p'

/-- The returns of a run meet the condition. -/
def ReturnsSettle (w : World arch) (e : Event arch) : Prop :=
  ∀ pid mapped p entry, e = .leave pid mapped → w.process pid = some p → p.phase = .returning entry →
    Settles entry p.signals

/-- **Pending signals are acted on at user return**, on every architecture and in every run whose returns meet the
condition: nothing is left that is pending, not blocked and not ignored but for signals above the one whose handler was
just set up, and SIGKILL is not left pending. -/
theorem signals_acted_on (mem : UserMem) (cpu : Cpu (TrapFrame arch)) {events : List (Event arch)}
    (hok : Meets World.step ReturnsSettle (World.boot mem cpu) events) :
    Takes World.step ReturnsActed (World.boot mem cpu) events := by
  refine Takes.of_step (fun w e w' hw hsettle h => ⟨step_guarded hw h, ?_⟩) (boot_guarded mem cpu) hok
  rintro pid mapped p p' rfl hp hp' huser
  rcases World.step_cases h with ⟨_, _, _, _, _, he, -⟩ | ⟨_, _, _, _, he, -⟩ | ⟨_, _, _, _, he, -⟩ |
    ⟨pid, q, entry, mapped, he, hq, hphase, rfl⟩
  · cases he
  · cases he
  · cases he
  · cases he
    obtain rfl : p = q := Option.some.inj (hp.symm.trans hq)
    obtain ⟨hs, hf⟩ := hw pid p hp
    exact (leave_acted hs hf hphase hp' huser).2 (hsettle pid mapped p entry rfl hp hphase)

/-! ### Runs -/

/-- A check that every return of a run is one through `user_trap_status` without a pending SIGKILL. -/
def returnsClear : World arch → List (Event arch) → Bool
  | _, [] => true
  | w, e :: events =>
    (match e with
      | .leave pid _ => (w.process pid).all fun p => match p.phase with
        | .returning .native => !p.signals.pending.getLsbD (sigkill - 1)
        | .returning _ => false
        | _ => true
      | _ => true) && (w.step e).all fun w => returnsClear w events

theorem meets_of_returnsClear : ∀ {events : List (Event arch)} {w : World arch}, returnsClear w events = true →
    Meets World.step ReturnsSettle w events
  | [], _, _ => trivial
  | e :: events, w, h => by
    unfold returnsClear at h
    obtain ⟨hclear, hrest⟩ := (Bool.and_eq_true _ _).mp h
    refine ⟨?_, fun w' hs => ?_⟩
    · rintro pid mapped p entry rfl hp hphase
      simp only [hp, Option.all_some, hphase] at hclear
      cases entry with
      | native =>
        intro hkill
        rw [hkill] at hclear
        cases hclear
      | gate => cases hclear
      | fork => cases hclear
    · rw [hs, Option.all_some] at hrest
      exact meets_of_returnsClear hrest

end Leave

/-- No page is mapped. -/
def noMem : UserMem := ⟨fun _ => none, fun _ => 0⟩

/-- All pages are mapped, and the structure at 0x2000 names a handler at 0x5000 with its restorer. -/
def actionMem : UserMem :=
  UserMem.write ⟨fun _ => some true, fun _ => 0⟩ 0x2000 4 fun i =>
    if i = 0 then 0x5000 else if i = 1 then saRestorer else if i = 2 then 0x6000 else 0

def nativeCpu : Cpu (TrapFrame .x86_64) :=
  ⟨⟨0, 0, 0, 0, 0, 0, 0, 0, 0, 0, 0, 0, 0, 0, 0, 0, 0x1b, 0x202, 0, 0x23⟩, fun _ => 0, 0, 0⟩

/-- The same with a stack. -/
def stackCpu : Cpu (TrapFrame .x86_64) := { nativeCpu with frame := { nativeCpu.frame with rsp := 0x20000 } }

/-- A process installs a handler for SIGUSR1, sends itself that signal, and then SIGTERM, which ends it. -/
def nativeRun : List (Event .x86_64) :=
  [.enter 1 .native actionMem stackCpu, .call 1 (.rtSigaction 10 0x2000 0), .leave 1 true,
    .enter 1 .native actionMem stackCpu, .call 1 (.kill 0 10), .leave 1 true,
    .enter 1 .native actionMem stackCpu, .call 1 (.kill 0 15), .leave 1 true]

def Phase.isZombie : Phase → Bool
  | .zombie => true
  | _ => false

/-- The handler starts after the second call, and after the third the process is gone. -/
theorem signals_acted_on_nativeRun :
    (runs World.step (World.boot actionMem stackCpu) (nativeRun.take 6)).map
        (fun w => (w.process 1).map fun p => p.thread.cpu.frame.rip) = some (some 0x5000) ∧
      (runs World.step (World.boot actionMem stackCpu) nativeRun).map
        (fun w => (w.process 1).map fun p => p.phase.isZombie) = some (some true) ∧
      Takes World.step ReturnsActed (World.boot actionMem stackCpu) nativeRun := by
  have hclear : returnsClear (World.boot actionMem stackCpu) nativeRun = true := by decide +kernel
  exact ⟨by decide +kernel, by decide +kernel, signals_acted_on actionMem stackCpu (meets_of_returnsClear hclear)⟩

def ecallCpu : Cpu (TrapFrame .riscv64) := ⟨⟨fun _ => 0, 0, 0⟩, fun _ => 0, 0, 0⟩

/-- A process sends itself SIGKILL. -/
def ecallRun : List (Event .riscv64) :=
  [.enter 1 .gate noMem ecallCpu, .call 1 (.kill 0 9), .leave 1 false]

/-- On riscv64 the process goes on in user mode with SIGKILL pending. -/
theorem sigkill_survives_ecall : ¬ Takes World.step ReturnsActed (World.boot noMem ecallCpu) ecallRun := by
  intro h
  obtain ⟨-, h⟩ := h _ rfl
  obtain ⟨-, h⟩ := h _ rfl
  obtain ⟨h, -⟩ := h _ rfl
  have hgone := (h 1 false _ _ rfl rfl rfl rfl).2
  exact absurd hgone (by decide)

end Koros.Signal
