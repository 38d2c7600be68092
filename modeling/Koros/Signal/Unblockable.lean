import Koros.Signal.Calls

/-!
# SIGKILL and SIGSTOP cannot be blocked or caught

The blocked mask of a `SignalState` excludes both signals by construction: each definition that stores a mask gives the
proof. What is left is the dispositions. A step derives each process after it from one before it (`step_derives`), and
every such change leaves the two dispositions alone or resets them (`Derived`). The same inversion of the step says that
a process that came in through `syscall_entry` keeps a frame of user mode (`Process.FrameOk`).

**`unblockable_everywhere`** says both of every process in every state of every run.
-/
set_option autoImplicit false

namespace Koros.Signal

open Koros.Lib

/-! ## One signal state -/

/-- The dispositions of SIGKILL and SIGSTOP are as before, or the default. -/
def Derived (s s' : SignalState) : Prop :=
  ∀ n, n = sigkill ∨ n = sigstop → s'.actions n = s.actions n ∨ s'.actions n = emptySignalAction

theorem Derived.of_actions {s s' : SignalState} (h : s'.actions = s.actions) : Derived s s' :=
  fun n _ => .inl (congrFun h n)

theorem Derived.refl (s : SignalState) : Derived s s := .of_actions rfl

theorem Derived.trans {s s' s'' : SignalState} (h : Derived s s') (h' : Derived s' s'') : Derived s s'' := by
  intro n hn
  rcases h' n hn with he | he
  · rw [he]
    exact h n hn
  · exact .inr he

theorem derived_setAction {s : SignalState} {signal : Nat} {action : SignalAction}
    (h : ¬ (signal = sigkill ∨ signal = sigstop) ∨ action = emptySignalAction) : Derived s (s.setAction signal action) := by
  intro n hn
  by_cases hne : n = signal
  · subst hne
    refine .inr ?_
    rw [h.resolve_left (fun h => h hn)]
    exact Function.update_self ..
  · exact .inl (Function.update_of_ne hne ..)

theorem derived_resetForExec (s : SignalState) : Derived s s.resetForExec := by
  intro n _
  simp only [SignalState.resetForExec]
  split
  · exact .inr rfl
  · exact .inl rfl

theorem derived_changeMask {s s' : SignalState} {how : Nat} {set : Word} (h : s.changeMask how set = some s') :
    Derived s s' := by
  unfold SignalState.changeMask at h
  dsimp only at h
  split at h <;> cases h <;> exact .of_actions rfl

/-! ## One thread -/

section Threads

variable {F : Type} {arch : Arch}

theorem redirect_derived (P : Port F) (pid : Nat) (mapped : Bool) (t : Thread F) (signal : Nat) (action : SignalAction) :
    Derived t.signals (P.redirect pid mapped t signal action).2.signals := by
  unfold Port.redirect
  split
  · exact .refl _
  dsimp only
  split
  · exact .refl _
  split
  · exact .refl _
  split
  · exact .refl _
  have hset : Derived t.signals
      (if action.flags &&& saResethand ≠ 0 then t.signals.setAction signal emptySignalAction else t.signals) := by
    split
    · exact derived_setAction (.inr rfl)
    · exact .refl _
  split <;> exact hset

/-- Delivery resets a disposition or leaves it. -/
theorem deliver_derived (P : Port F) (pid : Nat) (mapped : Bool) (t : Thread F) :
    Derived t.signals (P.deliver pid mapped t).2.signals := by
  fun_induction Port.deliver P pid mapped t with
  | case1 t _ => exact .refl _
  | case2 t i _ signal action t' _ ih => exact ih
  | case3 t i _ signal action t' _ _ ih => exact ih
  | case4 t i _ signal action t' _ _ _ => exact .of_actions rfl
  | case5 t i _ signal action t' _ _ _ => exact redirect_derived P pid mapped t' signal action

theorem sigreturn_derived {P : Port F} {t t' : Thread F} (h : P.sigreturn t = some t') :
    Derived t.signals t'.signals := by
  obtain ⟨_, _, _, _, _, _, _, _, _, _, rfl⟩ := sigreturn_cases h
  exact .of_actions rfl

theorem writeOld_signals (t : Thread (TrapFrame arch)) (address size : Nat) (words : Nat → Word) :
    (writeOld arch t address size words).2.signals = t.signals := by
  unfold writeOld
  split
  · rfl
  · split <;> rfl

theorem sysRtSigaction_derived (t : Thread (TrapFrame arch)) (signal action oldAction : Nat) :
    Derived t.signals (sysRtSigaction arch t signal action oldAction).2.signals := by
  unfold sysRtSigaction
  split
  · exact .refl _
  next hsignal =>
  dsimp only
  split
  · rw [writeOld_signals]
    exact .refl _
  split
  · exact .refl _
  · rw [writeOld_signals]
    -- the call has refused the two signals
    exact derived_setAction (.inl fun h => hsignal (.inr (.inr h)))

theorem sysRtSigprocmask_derived (t : Thread (TrapFrame arch)) (how set oldSet : Nat) :
    Derived t.signals (sysRtSigprocmask arch t how set oldSet).2.signals := by
  unfold sysRtSigprocmask
  dsimp only
  split
  · rw [writeOld_signals]
    exact .refl _
  split
  · exact .refl _
  split
  · exact .refl _
  next hmask =>
  rw [writeOld_signals]
  exact derived_changeMask hmask

theorem sysRtSigsuspend_derived (t : Thread (TrapFrame arch)) (mask : Nat) :
    Derived t.signals (sysRtSigsuspend arch t mask).2.signals := by
  unfold sysRtSigsuspend
  split
  · exact .refl _
  dsimp only
  split <;> exact .of_actions rfl

end Threads

/-! ## The frame of a native call -/

section Frames

variable {arch : Arch}

/-- A frame that `syscall_entry` of x86_64 built, or one restored over it. -/
def Native : (arch : Arch) → Cpu (TrapFrame arch) → Prop
  | .x86_64, cpu => X8664.TrapFrame.cs cpu.frame &&& 3 = 3
  | .riscv64, _ => False
  | .aarch64, _ => False

theorem Native.setResult {cpu : Cpu (TrapFrame arch)} (h : Native arch cpu) (result : Word) :
    Native arch ((port arch).setResult cpu result) := by
  cases arch with
  | x86_64 => exact h
  | riscv64 => exact h.elim
  | aarch64 => exact h.elim

theorem Native.capture {cpu : Cpu (TrapFrame arch)} (h : Native arch cpu) :
    ∃ context, (port arch).captureUserContext cpu = some context := by
  cases arch with
  | x86_64 => exact ⟨_, if_neg (not_not.2 h)⟩
  | riscv64 => exact h.elim
  | aarch64 => exact h.elim

/-- A restored context is one of user mode. -/
theorem Native.restore {cpu cpu' : Cpu (TrapFrame arch)} {context : UserTrapContext} (h : Native arch cpu)
    (hr : (port arch).restoreUserContext cpu context = some cpu') : Native arch cpu' := by
  cases arch with
  | x86_64 =>
    cases hr
    show (0x1b : Word) &&& 3 = 3
    decide
  | riscv64 => exact h.elim
  | aarch64 => exact h.elim

/-- A native call is one of x86_64, and its frame is one of user mode. -/
theorem native_of_enter {entry : Entry} {cpu : Cpu (TrapFrame arch)} (he : World.canEnter arch entry = true)
    (hc : ((port arch).captureUserContext cpu).isSome = true) (hn : entry = .native) : Native arch cpu := by
  subst hn
  cases arch with
  | x86_64 =>
    by_contra hne
    have hcapture : X8664.captureUserContext cpu = none := if_pos hne
    rw [show (port .x86_64).captureUserContext cpu = none from hcapture] at hc
    cases hc
  | riscv64 => cases he
  | aarch64 => cases he

/-- The entry of a process that is in the kernel. -/
def Phase.entry : Phase → Option Entry
  | .user | .zombie => none
  | .entered entry | .suspended entry _ | .returning entry => some entry

def Process.FrameOk (p : Process arch) : Prop := p.phase.entry = some .native → Native arch p.thread.cpu

theorem sigreturn_native {t t' : Thread (TrapFrame arch)} (h : Native arch t.cpu)
    (hs : (port arch).sigreturn t = some t') : Native arch t'.cpu := by
  obtain ⟨_, _, _, cpu, _, _, _, _, _, hr, rfl⟩ := sigreturn_cases hs
  exact (h.restore hr).setResult _

theorem execContext_native {cpu cpu' : Cpu (TrapFrame arch)} {start stackTop : Word} (h : Native arch cpu)
    (he : execContext arch cpu start stackTop = some cpu') : Native arch cpu' := by
  unfold execContext at he
  split at he
  · cases he
  · exact h.restore he

theorem writeOld_cpu (t : Thread (TrapFrame arch)) (address size : Nat) (words : Nat → Word) :
    (writeOld arch t address size words).2.cpu = t.cpu := by
  unfold writeOld
  split
  · rfl
  · split <;> rfl

theorem sysRtSigaction_cpu (t : Thread (TrapFrame arch)) (signal action oldAction : Nat) :
    (sysRtSigaction arch t signal action oldAction).2.cpu = t.cpu := by
  unfold sysRtSigaction
  split
  · rfl
  dsimp only
  split
  · exact writeOld_cpu ..
  split
  · rfl
  · exact writeOld_cpu ..

theorem sysRtSigprocmask_cpu (t : Thread (TrapFrame arch)) (how set oldSet : Nat) :
    (sysRtSigprocmask arch t how set oldSet).2.cpu = t.cpu := by
  unfold sysRtSigprocmask
  dsimp only
  split
  · exact writeOld_cpu ..
  split
  · rfl
  split
  · rfl
  · exact writeOld_cpu ..

theorem sysRtSigsuspend_cpu (t : Thread (TrapFrame arch)) (mask : Nat) :
    (sysRtSigsuspend arch t mask).2.cpu = t.cpu := by
  unfold sysRtSigsuspend
  split
  · rfl
  dsimp only
  split <;> rfl

end Frames

/-! ## The process table -/

section Table

variable {arch : Arch} {w w' w'' : World arch} {pid : Nat} {p p' p'' : Process arch}

/-- What a step makes of a process. -/
structure Follows (p p' : Process arch) : Prop where
  signals : Derived p.signals p'.signals
  frame : p.FrameOk → p'.FrameOk

theorem Follows.refl (p : Process arch) : Follows p p := ⟨.refl _, id⟩

theorem Follows.trans (h : Follows p p') (h' : Follows p' p'') : Follows p p'' :=
  ⟨h.signals.trans h'.signals, fun hf => h'.frame (h.frame hf)⟩

/-- The result of a call is stored. -/
theorem follows_finish {entry : Entry} {t : Thread (TrapFrame arch)} {result : Word} (hphase : p.phase = .entered entry)
    (hs : Derived p.signals t.signals) (hcpu : Native arch p.thread.cpu → Native arch t.cpu) :
    Follows p ((p.setThread t).finish entry result) := by
  refine ⟨hs, fun hf hn => (hcpu (hf ?_)).setResult result⟩
  rw [hphase]
  exact hn

/-- Every process comes from one that was there before. -/
def Derives (w w' : World arch) : Prop :=
  ∀ pid p', w'.process pid = some p' → ∃ q p, w.process q = some p ∧ Follows p p'

theorem Derives.refl (w : World arch) : Derives w w := fun pid p hp => ⟨pid, p, hp, .refl _⟩

theorem Derives.trans (h : Derives w w') (h' : Derives w' w'') : Derives w w'' := by
  intro pid p'' hp''
  obtain ⟨q', p', hp', hd'⟩ := h' pid p'' hp''
  obtain ⟨q, p, hp, hd⟩ := h q' p' hp'
  exact ⟨q, p, hp, hd.trans hd'⟩

/-- A process is put in place of another, or added. -/
theorem Derives.set {q : Nat} (h : Derives w w') (hp : w.process q = some p) (hd : Follows p p') :
    Derives w (w'.set pid p') := by
  intro r p₁ hr
  by_cases hne : r = pid
  · subst hne
    rw [World.set_self] at hr
    cases hr
    exact ⟨q, p, hp, hd⟩
  · rw [World.set_of_ne w' p' hne] at hr
    exact h r p₁ hr

theorem derives_set {q : Nat} (hp : w.process q = some p) (hd : Follows p p') : Derives w (w.set pid p') :=
  (Derives.refl w).set hp hd

theorem derives_post (w : World arch) (pid signal : Nat) : Derives w (w.post pid signal) := by
  unfold World.post
  split
  · exact .refl _
  next hp => exact derives_set hp ⟨.of_actions rfl, id⟩

theorem derives_exitCurrent {q : Nat} (hp : w.process q = some p) (hd : Derived p.signals p'.signals) :
    Derives w (w.exitCurrent pid p') := by
  have hset : Derives w (w.set pid { p' with phase := .zombie }) := derives_set hp ⟨hd, nofun⟩
  unfold World.exitCurrent
  dsimp only
  split
  · exact hset.trans (derives_post _ _ _)
  · exact hset

theorem derives_sysKill (w : World arch) (pid target signal : Nat) : Derives w (w.sysKill pid target signal).2 := by
  unfold World.sysKill
  generalize (if target = 0 then pid else target) = target
  dsimp only
  split
  · exact .refl _
  split
  · exact .refl _
  split
  · exact derives_post _ _ _
  · exact .refl _

/-- A signal leaves the phase of every process alone. -/
theorem post_phase {q : Nat} (target signal : Nat) (hp : w.process q = some p) :
    ∃ p', (w.post target signal).process q = some p' ∧ p'.phase = p.phase := by
  unfold World.post
  split
  · exact ⟨p, hp, rfl⟩
  next p₁ hp₁ =>
  by_cases hne : q = target
  · subst hne
    obtain rfl : p = p₁ := Option.some.inj (hp.symm.trans hp₁)
    exact ⟨_, World.set_self .., rfl⟩
  · exact ⟨p, (World.set_of_ne w _ hne).trans hp, rfl⟩

theorem sysKill_phase (pid target signal : Nat) {q : Nat} (hp : w.process q = some p) :
    ∃ p', (w.sysKill pid target signal).2.process q = some p' ∧ p'.phase = p.phase := by
  unfold World.sysKill
  generalize (if target = 0 then pid else target) = target
  dsimp only
  split
  · exact ⟨p, hp, rfl⟩
  split
  · exact ⟨p, hp, rfl⟩
  split
  · exact post_phase _ _ hp
  · exact ⟨p, hp, rfl⟩

theorem derives_alloc {q : Nat} (hp : w.process q = some p) (hd : Follows p p') : Derives w (w.alloc p') :=
  show Derives w (w.set (w.nextPid + 1) p') from derives_set hp hd

theorem derives_remove (w : World arch) (pid : Nat) : Derives w (w.remove pid) := by
  intro r p hr
  by_cases hne : r = pid
  · subst hne
    simp [World.remove] at hr
  · refine ⟨r, p, ?_, .refl _⟩
    simpa [World.remove, Function.update_of_ne hne] using hr

/-- **One system call.** -/
theorem call_derives {entry : Entry} {c : Call arch} (hp : w.process pid = some p) (hphase : p.phase = .entered entry)
    (h : w.call pid p entry c = some w') : Derives w w' := by
  cases c with
  | rtSigaction signal action oldAction =>
    cases h
    exact derives_set hp (follows_finish hphase (sysRtSigaction_derived p.thread signal action oldAction)
      ((sysRtSigaction_cpu p.thread signal action oldAction).symm ▸ id))
  | rtSigprocmask how set oldSet =>
    cases h
    exact derives_set hp (follows_finish hphase (sysRtSigprocmask_derived p.thread how set oldSet)
      ((sysRtSigprocmask_cpu p.thread how set oldSet).symm ▸ id))
  | rtSigsuspend mask =>
    have hd := sysRtSigsuspend_derived p.thread mask
    have hcpu := sysRtSigsuspend_cpu p.thread mask
    simp only [World.call] at h
    split at h
    · next hs =>
      rw [hs] at hd hcpu
      cases h
      exact derives_set hp (follows_finish hphase hd fun hn => by rwa [show _ = p.thread.cpu from hcpu])
    · next old t hs =>
      rw [hs] at hd hcpu
      cases h
      refine derives_set hp ⟨hd, fun hf hn => ?_⟩
      show Native arch t.cpu
      rw [show t.cpu = p.thread.cpu from hcpu]
      exact hf (by rw [hphase]; exact hn)
  | rtSigreturn =>
    simp only [World.call] at h
    split at h
    · cases h
      exact derives_exitCurrent hp (.refl _)
    · next hs =>
      cases h
      exact derives_set hp ⟨sigreturn_derived hs, fun hf hn => sigreturn_native (hf (by rw [hphase]; exact hn)) hs⟩
  | kill target signal =>
    obtain ⟨p', hp', rfl⟩ := Option.map_eq_some_iff.1 h
    obtain ⟨p₁, hp₁, hphase₁⟩ := sysKill_phase pid target signal hp
    obtain rfl : p' = p₁ := Option.some.inj (hp'.symm.trans hp₁)
    exact (derives_sysKill w pid target signal).trans
      (derives_set hp' (follows_finish (t := p'.thread) (hphase₁.trans hphase) (.refl _) id))
  | clone =>
    cases h
    have hchild : Derives w (w.alloc ⟨pid, p.thread.setSignals p.signals.forkClone, 0, .returning .fork⟩) :=
      derives_alloc hp ⟨.of_actions rfl, nofun⟩
    exact hchild.set hp (follows_finish (t := p.thread) hphase (.refl _) id)
  | execve mem start stackTop =>
    obtain ⟨cpu, hcpu, rfl⟩ := Option.map_eq_some_iff.1 h
    exact derives_set hp (follows_finish hphase (derived_resetForExec _) fun hn => execContext_native hn hcpu)
  | reap child =>
    simp only [World.call] at h
    split at h
    · split at h
      · cases h
        exact (derives_remove w child).set hp (follows_finish (t := p.thread) hphase (.refl _) id)
      · cases h
    · cases h
  | exit =>
    cases h
    exact derives_exitCurrent hp (.refl _)
  | other mem result =>
    cases h
    exact derives_set hp (follows_finish hphase (.of_actions rfl) id)

theorem leave_derives {entry : Entry} (mapped : Bool) (hp : w.process pid = some p) :
    Derives w (w.leave pid p entry mapped) := by
  cases entry with
  | native =>
    have hd := deliver_derived (port arch) pid mapped p.thread
    simp only [World.leave]
    split <;> rename_i ho <;> rw [ho] at hd
    · exact derives_exitCurrent hp hd
    · exact derives_set hp ⟨hd, nofun⟩
  | gate => exact derives_set hp ⟨.refl _, nofun⟩
  | fork => exact derives_set hp ⟨.refl _, nofun⟩

/-- **One event.** -/
theorem step_derives {e : Event arch} (h : w.step e = some w') : Derives w w' := by
  rcases World.step_cases h with ⟨pid, p, entry, mem, cpu, rfl, hp, -, he, hc, rfl⟩ |
    ⟨pid, p, entry, c, rfl, hp, hphase, hc⟩ | ⟨pid, p, entry, old, rfl, hp, hphase, rfl⟩ |
    ⟨pid, p, entry, mapped, rfl, hp, -, rfl⟩
  · exact derives_set hp ⟨.of_actions rfl, fun _ hn => native_of_enter he hc (Option.some.inj hn)⟩
  · exact call_derives hp hphase hc
  · refine derives_set hp ⟨.of_actions rfl, fun hf hn => (hf ?_).setResult _⟩
    rw [hphase]
    exact hn
  · exact leave_derives mapped hp

/-! ## Every run -/

/-- SIGKILL and SIGSTOP have the default disposition. -/
def SignalState.Guarded (s : SignalState) : Prop :=
  s.actions sigkill = emptySignalAction ∧ s.actions sigstop = emptySignalAction

theorem Derived.guarded {s s' : SignalState} (h : Derived s s') (hs : s.Guarded) : s'.Guarded :=
  ⟨(h _ (.inl rfl)).elim (·.trans hs.1) id, (h _ (.inr rfl)).elim (·.trans hs.2) id⟩

/-- What holds of every process in every state. -/
def World.Guarded (w : World arch) : Prop := ∀ pid p, w.process pid = some p → p.signals.Guarded ∧ p.FrameOk

theorem boot_guarded (mem : UserMem) (cpu : Cpu (TrapFrame arch)) : (World.boot mem cpu).Guarded := by
  intro pid p hp
  simp only [World.boot] at hp
  split at hp
  · cases hp
    exact ⟨⟨rfl, rfl⟩, nofun⟩
  · cases hp

theorem step_guarded {e : Event arch} (hw : w.Guarded) (h : w.step e = some w') : w'.Guarded := by
  intro pid p' hp'
  obtain ⟨q, p, hp, hd⟩ := step_derives h pid p' hp'
  obtain ⟨hs, hf⟩ := hw q p hp
  exact ⟨hd.signals.guarded hs, hd.frame hf⟩

/-- SIGKILL and SIGSTOP are not blocked. -/
theorem SignalState.blocked_false (s : SignalState) :
    s.blocked.getLsbD (sigkill - 1) = false ∧ s.blocked.getLsbD (sigstop - 1) = false := by
  have hbit : ∀ i, unblockableMask.getLsbD i = true → s.blocked.getLsbD i = false := by
    intro i hi
    have h := congrArg (BitVec.getLsbD · i) s.unblockable
    simpa [BitVec.getLsbD_and, hi] using h
  exact ⟨hbit _ (by decide), hbit _ (by decide)⟩

/-- **SIGKILL and SIGSTOP can never be blocked or caught**: in every state of every run of any number of processes, no
process blocks one of them, and their dispositions are the default. -/
theorem unblockable_everywhere (mem : UserMem) (cpu : Cpu (TrapFrame arch)) (events : List (Event arch)) :
    Visits World.step
      (fun w => ∀ pid p, w.process pid = some p →
        p.signals.blocked.getLsbD (sigkill - 1) = false ∧ p.signals.blocked.getLsbD (sigstop - 1) = false ∧
        p.signals.actions sigkill = emptySignalAction ∧ p.signals.actions sigstop = emptySignalAction)
      (World.boot mem cpu) events := by
  have hall : Meets World.step (fun _ _ => True) (World.boot mem cpu) events := Meets.of_forall fun _ _ => trivial
  have hinv : Visits World.step World.Guarded (World.boot mem cpu) events :=
    Visits.of_step (fun _ _ _ hw _ h => step_guarded hw h) (boot_guarded mem cpu) hall
  refine hinv.imp fun w hw pid p hp => ?_
  obtain ⟨hkill, hstop⟩ := p.signals.blocked_false
  exact ⟨hkill, hstop, (hw pid p hp).1⟩

end Table

end Koros.Signal
