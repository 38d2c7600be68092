import Koros.Signal.Return

/-!
# Waiting for a signal

`sys_rt_sigsuspend` puts a mask in place, waits for a token of `signal_events` and puts the old mask back; the signal is
left to the return to user mode. Every signal that is sent leaves a token there, whatever the mask, and nothing but a wait
takes one.

- `others_step`, `others_run`: what the events of other processes do to a process, a signal with its token;
- `deliver_first`: a delivery takes out the first signal to act on, and ignored ones;
- **`sigsuspend_delivers`**: a call that begins with no token left, and to which only signals come that its mask does not
  block, returns with one of them pending; it is acted on before the next user instruction exactly when the way out is
  the native one and the old mask lets it come first;
- `sigsuspend_returns_early`: a token of an earlier signal ends the wait at once.
-/
set_option autoImplicit false

namespace Koros.Signal

open Koros.Lib

/-- The process that an event is one of. -/
def Event.pid {arch : Arch} : Event arch → Nat
  | .enter q _ _ _ => q
  | .call q _ => q
  | .wake q => q
  | .leave q _ => q

section Suspend

variable {arch : Arch} {w w' : World arch} {pid : Nat} {p p' : Process arch} {e : Event arch}

/-! ## The events of the others -/

/-- The process of the event ends in it. -/
def Exits (w : World arch) (e : Event arch) : Prop :=
  ∃ w' p', w.step e = some w' ∧ w'.process e.pid = some p' ∧ p'.phase = .zombie

/-- The event sends a signal to process `pid`. -/
inductive Sends (w : World arch) (e : Event arch) (pid : Nat) : Nat → Prop
  | kill {q target signal : Nat} (he : e = .call q (.kill target signal)) (htarget : (if target = 0 then q else target) = pid)
      (hzero : signal ≠ 0) (hle : signal ≤ signalCount) : Sends w e pid signal
  | child {p : Process arch} (hp : w.process e.pid = some p) (hparent : p.parent = pid) (hexits : Exits w e) :
      Sends w e pid 17

/-- Process numbers come from the counter. -/
def World.Numbered (w : World arch) : Prop := ∀ q, w.nextPid < q → w.process q = none

theorem World.Numbered.lt (h : w.Numbered) (hp : w.process pid = some p) : pid ≤ w.nextPid := by
  by_contra hlt
  rw [h pid (Nat.not_le.1 hlt)] at hp
  cases hp

theorem World.Numbered.set (h : w.Numbered) (hpid : pid ≤ w.nextPid) (p : Process arch) : (w.set pid p).Numbered := by
  intro q hq
  have hlt : w.nextPid < q := hq
  rw [World.set_of_ne w p (by omega)]
  exact h q hlt

theorem World.Numbered.post (h : w.Numbered) (q signal : Nat) : (w.post q signal).Numbered := by
  unfold World.post
  split
  · exact h
  · next hp => exact h.set (h.lt hp) _

theorem post_nextPid (w : World arch) (q signal : Nat) : (w.post q signal).nextPid = w.nextPid := by
  unfold World.post
  split <;> rfl

theorem World.Numbered.exitCurrent (h : w.Numbered) (hpid : pid ≤ w.nextPid) (p : Process arch) :
    (w.exitCurrent pid p).Numbered := by
  unfold World.exitCurrent
  dsimp only
  split
  · exact (h.set hpid _).post _ _
  · exact h.set hpid _

theorem World.Numbered.sysKill (h : w.Numbered) (q target signal : Nat) :
    (w.sysKill q target signal).2.Numbered ∧ (w.sysKill q target signal).2.nextPid = w.nextPid := by
  unfold World.sysKill
  generalize (if target = 0 then q else target) = target
  dsimp only
  split
  · exact ⟨h, rfl⟩
  split
  · exact ⟨h, rfl⟩
  split
  · exact ⟨h.post _ _, post_nextPid ..⟩
  · exact ⟨h, rfl⟩

theorem call_numbered {entry : Entry} {c : Call arch} (h : w.Numbered) (hp : w.process pid = some p)
    (hc : w.call pid p entry c = some w') : w'.Numbered := by
  have hpid := h.lt hp
  cases c with
  | rtSigaction signal action oldAction =>
    cases hc
    exact h.set hpid _
  | rtSigprocmask how set oldSet =>
    cases hc
    exact h.set hpid _
  | rtSigsuspend mask =>
    simp only [World.call] at hc
    split at hc
    · cases hc
      exact h.set hpid _
    · cases hc
      exact h.set hpid _
  | rtSigreturn =>
    simp only [World.call] at hc
    split at hc
    · cases hc
      exact h.exitCurrent hpid _
    · cases hc
      exact h.set hpid _
  | kill target signal =>
    obtain ⟨p', hp', rfl⟩ := Option.map_eq_some_iff.1 hc
    obtain ⟨hkill, hnext⟩ := h.sysKill pid target signal
    exact hkill.set (hnext ▸ hpid) _
  | clone =>
    cases hc
    intro q hq
    have hlt : w.nextPid + 1 < q := hq
    rw [World.set_of_ne _ _ (by omega)]
    exact (Function.update_of_ne (by omega) ..).trans (h q (by omega))
  | execve mem start stackTop =>
    obtain ⟨cpu, -, rfl⟩ := Option.map_eq_some_iff.1 hc
    exact h.set hpid _
  | reap child =>
    simp only [World.call] at hc
    split at hc
    · split at hc
      · cases hc
        have hremove : (w.remove child).Numbered := by
          intro q hq
          by_cases hne : q = child
          · simp [World.remove, hne]
          · exact (Function.update_of_ne hne ..).trans (h q hq)
        exact hremove.set hpid _
      · cases hc
    · cases hc
  | exit =>
    cases hc
    exact h.exitCurrent hpid _
  | other mem result =>
    cases hc
    exact h.set hpid _

theorem step_numbered (h : w.Numbered) (hs : w.step e = some w') : w'.Numbered := by
  rcases World.step_cases hs with ⟨q, p, entry, mem, cpu, rfl, hp, -, -, -, rfl⟩ | ⟨q, p, entry, c, rfl, hp, -, hc⟩ |
    ⟨q, p, entry, old, rfl, hp, -, rfl⟩ | ⟨q, p, entry, mapped, rfl, hp, -, rfl⟩
  · exact h.set (h.lt hp) _
  · exact call_numbered h hp hc
  · exact h.set (h.lt hp) _
  · cases entry with
    | native =>
      simp only [World.leave]
      split
      · exact h.exitCurrent (h.lt hp) _
      · exact h.set (h.lt hp) _
    | gate => exact h.set (h.lt hp) _
    | fork => exact h.set (h.lt hp) _

/-- A process, as another one's event leaves it. -/
def Touched (w : World arch) (e : Event arch) (pid : Nat) (p : Process arch) (w' : World arch) : Prop :=
  w'.process pid = some p ∨ ∃ signal, Sends w e pid signal ∧ w'.process pid = some (p.post signal)

theorem post_self (hp : w.process pid = some p) (signal : Nat) : (w.post pid signal).process pid = some (p.post signal) := by
  rw [World.post, hp]
  exact World.set_self ..

theorem post_of_ne {q : Nat} (hne : q ≠ pid) (signal : Nat) : (w.post pid signal).process q = w.process q := by
  unfold World.post
  split
  · rfl
  · exact World.set_of_ne w _ hne

/-- The process that ended is a zombie, and nothing else of it has changed. -/
theorem exitCurrent_self (w : World arch) (pid : Nat) (p : Process arch) :
    (w.exitCurrent pid p).process pid = some { p with phase := .zombie } := by
  unfold World.exitCurrent
  dsimp only
  split
  · next hparent =>
    rw [post_of_ne (Ne.symm hparent.2)]
    exact World.set_self ..
  · exact World.set_self ..

/-- The end of another process is a signal to its parent. -/
theorem exitCurrent_touches {q : Nat} {r r₀ : Process arch} (hne : pid ≠ q) (hp : w.process pid = some p)
    (hr : w.process q = some r₀) (hparent : r.parent = r₀.parent) (hq : e.pid = q)
    (hs : w.step e = some (w.exitCurrent q r)) : Touched w e pid p (w.exitCurrent q r) := by
  have hexits : Exits w e := ⟨_, _, hs, by rw [hq]; exact exitCurrent_self w q r, rfl⟩
  have hset : (w.set q { r with phase := .zombie }).process pid = some p := (World.set_of_ne w _ hne).trans hp
  unfold World.exitCurrent
  dsimp only
  split
  · by_cases hpid : r.parent = pid
    · subst hpid
      exact .inr ⟨17, .child (by rw [hq]; exact hr) hparent.symm hexits, post_self hset 17⟩
    · exact .inl ((post_of_ne (Ne.symm hpid) 17).trans hset)
  · exact .inl hset

theorem sysKill_touches (q target signal : Nat) (hp : w.process pid = some p) :
    Touched w (.call q (.kill target signal)) pid p (w.sysKill q target signal).2 := by
  unfold World.sysKill
  generalize htarget : (if target = 0 then q else target) = receiver
  dsimp only
  split
  · exact .inl hp
  next hle =>
  split
  · exact .inl hp
  split
  · next hzero =>
    by_cases hreceiver : receiver = pid
    · subst hreceiver
      exact .inr ⟨signal, .kill rfl htarget hzero (Nat.not_lt.1 hle), post_self hp signal⟩
    · exact .inl ((post_of_ne (Ne.symm hreceiver) signal).trans hp)
  · exact .inl hp

/-- **What another process's system call does to a process.** -/
theorem call_touches {q : Nat} {r : Process arch} {entry : Entry} {c : Call arch} (hw : w.Numbered) (hne : pid ≠ q)
    (hp : w.process pid = some p) (hlive : p.phase ≠ .zombie) (hr : w.process q = some r)
    (hs : w.step (.call q c) = some w') (hc : w.call q r entry c = some w') : Touched w (.call q c) pid p w' := by
  have hset : ∀ r', (w.set q r').process pid = some p := fun r' => (World.set_of_ne w r' hne).trans hp
  cases c with
  | rtSigaction signal action oldAction =>
    cases hc
    exact .inl (hset _)
  | rtSigprocmask how set oldSet =>
    cases hc
    exact .inl (hset _)
  | rtSigsuspend mask =>
    simp only [World.call] at hc
    split at hc
    · cases hc
      exact .inl (hset _)
    · cases hc
      exact .inl (hset _)
  | rtSigreturn =>
    simp only [World.call] at hc
    split at hc
    · cases hc
      exact exitCurrent_touches hne hp hr rfl rfl hs
    · cases hc
      exact .inl (hset _)
  | kill target signal =>
    obtain ⟨r', hr', rfl⟩ := Option.map_eq_some_iff.1 hc
    rcases sysKill_touches q target signal hp with hsame | ⟨sent, hsent, hpost⟩
    · exact .inl ((World.set_of_ne _ _ hne).trans hsame)
    · exact .inr ⟨sent, hsent, (World.set_of_ne _ _ hne).trans hpost⟩
  | clone =>
    cases hc
    have hpid := hw.lt hp
    refine .inl ((World.set_of_ne _ _ hne).trans ?_)
    exact (Function.update_of_ne (by omega) ..).trans hp
  | execve mem start stackTop =>
    obtain ⟨cpu, -, rfl⟩ := Option.map_eq_some_iff.1 hc
    exact .inl (hset _)
  | reap child =>
    simp only [World.call] at hc
    split at hc
    · next hchild =>
      split at hc
      · cases hc
        have hnot : pid ≠ child := by
          rintro rfl
          rw [hp, Option.some.injEq] at hchild
          subst hchild
          exact hlive rfl
        refine .inl ((World.set_of_ne _ _ hne).trans ?_)
        exact (Function.update_of_ne hnot ..).trans hp
      · cases hc
    · cases hc
  | exit =>
    cases hc
    exact exitCurrent_touches hne hp hr rfl rfl hs
  | other mem result =>
    cases hc
    exact .inl (hset _)

/-- **What an event of another process does to a process**: nothing, or it sends a signal. -/
theorem others_step (hw : w.Numbered) (hne : e.pid ≠ pid) (hp : w.process pid = some p) (hlive : p.phase ≠ .zombie)
    (hs : w.step e = some w') : Touched w e pid p w' := by
  have hne' : pid ≠ e.pid := Ne.symm hne
  have hset : ∀ r, (w.set e.pid r).process pid = some p := fun r => (World.set_of_ne w r hne').trans hp
  rcases World.step_cases hs with ⟨q, r, entry, mem, cpu, rfl, hr, -, -, -, rfl⟩ | ⟨q, r, entry, c, rfl, hr, -, hc⟩ |
    ⟨q, r, entry, old, rfl, hr, -, rfl⟩ | ⟨q, r, entry, mapped, rfl, hr, -, hleave⟩
  · exact .inl (hset _)
  · exact call_touches hw hne' hp hlive hr hs hc
  · exact .inl (hset _)
  · subst hleave
    cases entry with
    | native =>
      rcases hd : (port arch).deliver q mapped r.thread with ⟨o, t⟩
      cases o with
      | fatal status =>
        have hleave : w.leave q r .native mapped = w.exitCurrent q (r.setThread t) := by simp only [World.leave, hd]
        rw [hleave] at hs ⊢
        exact exitCurrent_touches hne' hp hr rfl rfl hs
      | idle =>
        simp only [World.leave, hd]
        exact .inl (hset _)
      | redirected address =>
        simp only [World.leave, hd]
        exact .inl (hset _)
    | gate => exact .inl (hset _)
    | fork => exact .inl (hset _)

/-! ## While a process waits -/

/-- A process to which signals were sent: they are pending, with a token each. -/
structure Receives (p p' : Process arch) : Prop where
  phase : p'.phase = p.phase
  cpu : p'.thread.cpu = p.thread.cpu
  actions : p'.signals.actions = p.signals.actions
  blocked : p'.signals.blocked = p.signals.blocked
  pending : ∀ i, p.signals.pending.getLsbD i = true → p'.signals.pending.getLsbD i = true

theorem Receives.refl (p : Process arch) : Receives p p := ⟨rfl, rfl, rfl, rfl, fun _ h => h⟩

theorem Receives.trans {p'' : Process arch} (h : Receives p p') (h' : Receives p' p'') : Receives p p'' :=
  ⟨h'.phase.trans h.phase, h'.cpu.trans h.cpu, h'.actions.trans h.actions, h'.blocked.trans h.blocked,
    fun i hi => h'.pending i (h.pending i hi)⟩

theorem receives_post (p : Process arch) (signal : Nat) : Receives p (p.post signal) := by
  refine ⟨rfl, rfl, rfl, rfl, fun i hi => ?_⟩
  show (p.signals.pending ||| SignalState.bit (signal - 1)).getLsbD i = true
  rw [BitVec.getLsbD_or, hi, Bool.true_or]

/-- A signal that was sent is pending. -/
theorem post_pending (p : Process arch) {signal : Nat} (hle : signal ≤ signalCount) :
    (p.post signal).signals.pending.getLsbD (signal - 1) = true := by
  have hlt : signal - 1 < 64 := by
    simp only [signalCount] at hle
    omega
  show (p.signals.pending ||| SignalState.bit (signal - 1)).getLsbD (signal - 1) = true
  simp [SignalState.bit, hlt]

theorem Sends.le {signal : Nat} (h : Sends w e pid signal) : signal ≤ signalCount := by
  cases h with
  | kill he htarget hzero hle => exact hle
  | child hp hparent hexits => decide

/-- The signals that the event sends to the process are not in the mask. -/
def SendsOutside (mask : Word) (pid : Nat) (w : World arch) (e : Event arch) : Prop :=
  ∀ signal, Sends w e pid signal → mask.getLsbD (signal - 1) = false

/-- **Events of other processes**: a process receives signals, and nothing else of it changes. -/
theorem others_run {events : List (Event arch)} (hw : w.Numbered) (hne : ∀ e ∈ events, e.pid ≠ pid)
    (hp : w.process pid = some p) (hlive : p.phase ≠ .zombie) (hrun : runs World.step w events = some w') :
    ∃ p', w'.process pid = some p' ∧ Receives p p' := by
  induction events generalizing w p with
  | nil =>
    cases hrun
    exact ⟨p, hp, .refl p⟩
  | cons e events ih =>
    obtain ⟨w₁, hs, hrun⟩ := Option.bind_eq_some_iff.1 hrun
    have hw₁ := step_numbered hw hs
    have hrest : ∀ e ∈ events, e.pid ≠ pid := fun e he => hne e (List.mem_cons_of_mem _ he)
    rcases others_step hw (hne e List.mem_cons_self) hp hlive hs with hsame | ⟨signal, -, hpost⟩
    · exact ih hw₁ hrest hsame hlive hrun
    · obtain ⟨p', hp', hreceives⟩ := ih hw₁ hrest hpost hlive hrun
      exact ⟨p', hp', (receives_post p signal).trans hreceives⟩

/-- A token for each signal: with none to begin with, a token says that a signal outside the mask is pending. -/
theorem others_run_token {mask : Word} {events : List (Event arch)} (hw : w.Numbered) (hne : ∀ e ∈ events, e.pid ≠ pid)
    (hp : w.process pid = some p) (hlive : p.phase ≠ .zombie)
    (htoken : 0 < p.events → ∃ i, p.signals.pending.getLsbD i = true ∧ mask.getLsbD i = false)
    (hsends : Meets World.step (SendsOutside mask pid) w events) (hrun : runs World.step w events = some w')
    (hp' : w'.process pid = some p') :
    0 < p'.events → ∃ i, p'.signals.pending.getLsbD i = true ∧ mask.getLsbD i = false := by
  induction events generalizing w p with
  | nil =>
    cases hrun
    obtain rfl : p = p' := Option.some.inj (hp.symm.trans hp')
    exact htoken
  | cons e events ih =>
    obtain ⟨w₁, hs, hrun⟩ := Option.bind_eq_some_iff.1 hrun
    have hw₁ := step_numbered hw hs
    have hrest : ∀ e ∈ events, e.pid ≠ pid := fun e he => hne e (List.mem_cons_of_mem _ he)
    rcases others_step hw (hne e List.mem_cons_self) hp hlive hs with hsame | ⟨signal, hsent, hpost⟩
    · exact ih hw₁ hrest hsame hlive htoken (hsends.2 w₁ hs) hrun
    · refine ih hw₁ hrest hpost hlive (fun _ => ⟨signal - 1, ?_, ?_⟩) (hsends.2 w₁ hs) hrun
      · exact post_pending p hsent.le
      · exact hsends.1 signal hsent

/-! ## The signal that is acted on -/

namespace SignalState

/-- The signal to act on first. -/
def First (s : SignalState) (k : Nat) : Prop := s.Actionable k ∧ ∀ i < k, ¬ s.Actionable i

theorem first_clearPending {s : SignalState} {k j : Nat} (hk : s.Ignored k) :
    (s.clearPending (bit k)).First j ↔ s.First j := by
  unfold First
  simp only [actionable_clearPending hk]

end SignalState

/-- A handler runs next, on a frame with the mask. -/
def Enters (P : Port (TrapFrame arch)) (t : Thread (TrapFrame arch)) (handler mask : Word) : Prop :=
  (P.visible t.cpu).pc = handler ∧
    ∃ address, (P.visible t.cpu).sp = BitVec.ofNat 64 address ∧ t.mem.word address P.layout.mask = mask

/-- What a delivery does: it takes out the first signal to act on, which ends the process or enters its handler with the
mask in its frame; the others that it takes out are ignored. -/
structure DeliversFirst (P : Port (TrapFrame arch)) (t : Thread (TrapFrame arch)) (o : Outcome)
    (t' : Thread (TrapFrame arch)) : Prop where
  cleared : ∀ j, t.signals.pending.getLsbD j = true → t'.signals.pending.getLsbD j = false →
    t.signals.Ignored j ∨ t.signals.First j
  first : ∀ k, t.signals.First k → t'.signals.pending.getLsbD k = false ∧
    ((∃ status, o = .fatal status) ∨
      ∃ address, o = .redirected address ∧ Enters P t' (t.signals.actions (k + 1)).handler t.signals.blocked)

/-- The handler starts on its frame. -/
theorem setupUserSignal_sp {cpu cpu' : Cpu (TrapFrame arch)} {setup : Setup}
    (h : (port arch).setupUserSignal cpu setup = some cpu') : ((port arch).visible cpu').sp = setup.signalFrame := by
  cases arch with
  | riscv64 =>
    simp only [port, Riscv64.port, Riscv64.setupUserSignal] at h ⊢
    split at h
    · cases h
    · cases h
      simp [Function.update_of_ne]
  | aarch64 =>
    simp only [port, Aarch64.port, Aarch64.setupUserSignal] at h ⊢
    split at h
    · cases h
    · cases h
      rfl
  | x86_64 =>
    simp only [port, X8664.port, X8664.setupUserSignal] at h ⊢
    split at h
    · cases h
    split at h
    · cases h
    · cases h
      rfl

/-- The frame holds the mask. -/
theorem signalFrame_mask {F : Type} (P : Port F) (restorer : Word) (signal pid : Nat) (context : UserTrapContext)
    (mask : Word) : P.signalFrame restorer signal pid context mask P.layout.mask = mask := by
  have hout : ¬ (P.layout.machine ≤ P.layout.mask ∧ P.layout.mask < P.layout.machine + P.layout.machineSize) := by
    have := P.layout.mask_out
    omega
  simp only [Port.signalFrame]
  rw [if_neg hout, if_pos trivial]

/-- A handler was set up, or the process is ended for want of a frame. -/
theorem redirect_enters {mapped : Bool} {t t' : Thread (TrapFrame arch)} {o : Outcome} {signal : Nat}
    {action : SignalAction} {context : UserTrapContext} (hcap : (port arch).captureUserContext t.cpu = some context)
    (h : (port arch).redirect pid mapped t signal action = (o, t')) :
    t'.signals.pending = t.signals.pending ∧
      ((∃ status, o = .fatal status) ∨
        ∃ address, o = .redirected address ∧ Enters (port arch) t' action.handler t.signals.blocked) := by
  have hpending : t'.signals.pending = t.signals.pending := by
    have ht' : t' = ((port arch).redirect pid mapped t signal action).2 := by rw [h]
    rw [ht', Port.redirect, hcap]
    dsimp only
    split
    · rfl
    split
    · rfl
    split
    · rfl
    split
    · dsimp only
      split <;> rfl
    · dsimp only
      split <;> rfl
  refine ⟨hpending, ?_⟩
  rcases redirect_cases hcap h with hfatal | ⟨address, setup, rfl, hhandler, hsetup, -, -⟩
  · exact .inl hfatal
  · obtain ⟨context', setup', -, -, -, -, hmem, hframe, hsetup'⟩ := redirect_redirected h
    refine .inr ⟨address, rfl, (setupUserSignal_pc hsetup).trans hhandler, address, ?_, ?_⟩
    · exact (setupUserSignal_sp hsetup').trans hframe
    · rw [hmem, word_write (port arch).layout.mask_fits]
      exact signalFrame_mask ..

/-- The rounds of the loop for the ignored signals do not show. -/
theorem DeliversFirst.of_clearPending {P : Port (TrapFrame arch)} {t t' : Thread (TrapFrame arch)} {o : Outcome} {i : Nat}
    (hign : t.signals.Ignored i)
    (h : DeliversFirst P { t with signals := t.signals.clearPending (SignalState.bit i) } o t') : DeliversFirst P t o t' := by
  refine ⟨fun j hj hj' => ?_, fun k hk => h.first k ((SignalState.first_clearPending hign).2 hk)⟩
  by_cases hne : j = i
  · exact .inl (hne ▸ hign)
  · have hpending : (t.signals.clearPending (SignalState.bit i)).pending.getLsbD j = true := by
      rw [SignalState.clearPending_getLsbD, hj]
      simpa using hne
    exact (h.cleared j hpending hj').imp id (SignalState.first_clearPending hign).1

/-- The lowest deliverable signal is not ignored: it is taken out, and nothing else. -/
theorem delivers_lowest {P : Port (TrapFrame arch)} {t t' : Thread (TrapFrame arch)} {o : Outcome} {i : Nat}
    (hi : SignalState.lowest (t.signals.pending &&& ~~~t.signals.blocked) = some i) (hign : ¬ t.signals.Ignored i)
    (hpending : t'.signals.pending = (t.signals.clearPending (SignalState.bit i)).pending)
    (hend : (∃ status, o = .fatal status) ∨
      ∃ address, o = .redirected address ∧ Enters P t' (t.signals.actions (i + 1)).handler t.signals.blocked) :
    DeliversFirst P t o t' := by
  have hdel : t.signals.Deliverable i := SignalState.deliverable_iff.1 (SignalState.lowest_spec hi)
  have hfirst : t.signals.First i :=
    ⟨⟨hdel, hign⟩, fun j hj hact => absurd (SignalState.lowest_le hi hact.1) (Nat.not_le.2 hj)⟩
  have hbit : ∀ j, t'.signals.pending.getLsbD j = (t.signals.pending.getLsbD j && decide (j ≠ i)) := fun j => by
    rw [hpending]
    exact SignalState.clearPending_getLsbD
  refine ⟨fun j hj hj' => ?_, fun k hk => ?_⟩
  · rw [hbit, hj, Bool.true_and, decide_eq_false_iff_not, not_not] at hj'
    exact .inr (hj' ▸ hfirst)
  · -- there is one first signal
    have hki : k = i := by
      rcases Nat.lt_trichotomy k i with hlt | heq | hlt
      · exact absurd hk.1 (hfirst.2 k hlt)
      · exact heq
      · exact absurd hfirst.1 (hk.2 i hlt)
    subst hki
    exact ⟨by simp [hbit], hend⟩

/-- **What a delivery into a frame of user mode does.** -/
theorem deliver_first {mapped : Bool} {t t' : Thread (TrapFrame arch)} {o : Outcome} {context : UserTrapContext}
    (hcap : (port arch).captureUserContext t.cpu = some context)
    (h : (port arch).deliver pid mapped t = (o, t')) : DeliversFirst (port arch) t o t' := by
  fun_induction Port.deliver (port arch) pid mapped t with
  | case1 t hnone =>
    cases h
    have hleft := SignalState.not_deliverable_of_lowest hnone
    refine ⟨fun j hj hj' => ?_, fun k hk => absurd hk.1.1 (hleft k)⟩
    rw [hj] at hj'
    cases hj'
  | case2 t i hi signal action t₁ hign ih => exact .of_clearPending (.inl hign) (ih hcap h)
  | case3 t i hi signal action t₁ _ hchld ih => exact .of_clearPending (.inr hchld) (ih hcap h)
  | case4 t i hi signal action t₁ hign hchld hdfl =>
    obtain ⟨rfl, rfl⟩ := Prod.mk.inj h
    exact delivers_lowest hi (fun hi => hi.elim hign hchld) rfl (.inl ⟨_, rfl⟩)
  | case5 t i hi signal action t₁ hign hchld hdfl =>
    have hcap₁ : (port arch).captureUserContext t₁.cpu = some context := hcap
    obtain ⟨hpending, hend⟩ := redirect_enters hcap₁ h
    exact delivers_lowest hi (fun hi => hi.elim hign hchld) hpending hend

/-! ## The call -/

/-- `rt_sigsuspend` begins in `w`, with a mask that can be read. -/
structure Begins (w : World arch) (pid mask : Nat) (p : Process arch) (entry : Entry) (temporary : Word) : Prop where
  process : w.process pid = some p
  phase : p.phase = .entered entry
  read : ∃ words, (port arch).readUser p.thread.mem mask 1 = some words ∧ temporary = words 0 &&& ~~~unblockableMask

/-- The call that begins in `w₀` returns, and leaves the last state; the word is the pending set at its return, and the
list the events of other processes before it. -/
inductive Resumes (w₀ : World arch) (pid mask : Nat) : List (Event arch) → Word → World arch → Prop
  | atOnce {w : World arch} {p q : Process arch} {entry : Entry} (hp : w₀.process pid = some p)
      (hcall : w₀.step (.call pid (.rtSigsuspend mask)) = some w) (hq : w.process pid = some q)
      (hphase : q.phase = .returning entry) : Resumes w₀ pid mask [] p.signals.pending w
  | woken {w₁ w₂ w : World arch} {p : Process arch} {waiting : List (Event arch)}
      (hcall : w₀.step (.call pid (.rtSigsuspend mask)) = some w₁) (hothers : ∀ e ∈ waiting, e.pid ≠ pid)
      (hwait : runs World.step w₁ waiting = some w₂) (hp : w₂.process pid = some p)
      (hwake : w₂.step (.wake pid) = some w) : Resumes w₀ pid mask waiting p.signals.pending w

/-- The condition on a call that is to wait: there is no token, and the signals that come are not blocked by its mask. -/
structure Quiet (w₀ : World arch) (pid mask : Nat) (p : Process arch) (temporary : Word) (waiting : List (Event arch)) :
    Prop where
  token : p.signals.pending &&& ~~~temporary = 0 → p.events = 0
  sends : Meets World.step (SendsOutside temporary pid) w₀ (.call pid (.rtSigsuspend mask) :: waiting)

/-- The signal was acted on between the two states of the process: its disposition is not to ignore it, and it ended the
process or its handler runs next, with the mask in its frame. -/
structure CarriedOut (p p' : Process arch) (k : Nat) (mask : Word) : Prop where
  taken : p'.signals.pending.getLsbD k = false
  noted : ¬ p.signals.Ignored k
  ends : p'.phase = .zombie ∨
    p'.phase = .user ∧ Enters (port arch) p'.thread (p.signals.actions (k + 1)).handler mask

variable {w₀ : World arch} {mask : Nat} {entry : Entry} {temporary : Word} {waiting : List (Event arch)} {pending : Word}

/-- `sys_rt_sigsuspend` returns at once, or waits with its mask in place. -/
theorem suspend_call (h : Begins w₀ pid mask p entry temporary)
    (hs : w₀.step (.call pid (.rtSigsuspend mask)) = some w) :
    (p.signals.pending &&& ~~~temporary ≠ 0 ∧ w = w₀.set pid (p.finish entry (BitVec.ofInt 64 eintr))) ∨
    (p.signals.pending &&& ~~~temporary = 0 ∧ ∃ q, w = w₀.set pid q ∧
      q.phase = .suspended entry ⟨p.signals.blocked, p.signals.unblockable⟩ ∧ q.signals.blocked = temporary ∧
      q.signals.pending = p.signals.pending ∧ q.events = p.events) := by
  obtain ⟨words, hread, rfl⟩ := h.read
  simp only [World.step, h.process, h.phase, World.call] at hs
  by_cases hpending : p.signals.pending &&& ~~~(words 0 &&& ~~~unblockableMask) = 0
  · have hcall : sysRtSigsuspend arch p.thread mask = (.inr ⟨p.signals.blocked, p.signals.unblockable⟩,
        p.thread.setSignals (p.signals.setBlocked (words 0))) := by
      rw [sysRtSigsuspend, hread]
      exact if_neg (not_not.2 hpending)
    rw [hcall] at hs
    cases hs
    exact .inr ⟨hpending, _, rfl, rfl, rfl, rfl, rfl⟩
  · have hcall : sysRtSigsuspend arch p.thread mask = (.inl eintr, p.thread) := by
      rw [sysRtSigsuspend, hread]
      exact if_pos hpending
    rw [hcall] at hs
    cases hs
    exact .inl ⟨hpending, rfl⟩

theorem and_not_ne_zero {x y : Word} {i : Nat} (hx : x.getLsbD i = true) (hy : y.getLsbD i = false) :
    x &&& ~~~y ≠ 0 := by
  intro h
  have hbit := congrArg (BitVec.getLsbD · i) h
  simp only [BitVec.getLsbD_and, BitVec.getLsbD_not, hx, hy, BitVec.lt_of_getLsbD hx] at hbit
  simp at hbit

/-- A call that returns at once has a signal pending that its mask does not block. -/
theorem atOnce_spec {q : Process arch} {entry' : Entry} (h : Begins w₀ pid mask p entry temporary)
    (hcall : w₀.step (.call pid (.rtSigsuspend mask)) = some w) (hq : w.process pid = some q)
    (hphase : q.phase = .returning entry') :
    p.signals.pending &&& ~~~temporary ≠ 0 ∧ w = w₀.set pid (p.finish entry (BitVec.ofInt 64 eintr)) := by
  rcases suspend_call h hcall with hreturn | ⟨-, q', rfl, hphase', -⟩
  · exact hreturn
  · obtain rfl : q' = q := Option.some.inj ((World.set_self ..).symm.trans hq)
    rw [hphase'] at hphase
    cases hphase

/-- A call that was woken had waited since, and took a token. -/
theorem woken_spec {w₁ w₂ : World arch} {p₂ : Process arch} (hw : w₀.Numbered) (h : Begins w₀ pid mask p entry temporary)
    (hcall : w₀.step (.call pid (.rtSigsuspend mask)) = some w₁) (hothers : ∀ e ∈ waiting, e.pid ≠ pid)
    (hwait : runs World.step w₁ waiting = some w₂) (hp : w₂.process pid = some p₂)
    (hwake : w₂.step (.wake pid) = some w) :
    p.signals.pending &&& ~~~temporary = 0 ∧ 0 < p₂.events ∧
      (∃ q, w₁.process pid = some q ∧ q.phase ≠ .zombie ∧ q.events = p.events) ∧
      ∃ q, w.process pid = some q ∧ q.phase = .returning entry ∧ q.signals.blocked = p.signals.blocked ∧
        q.signals.pending = p₂.signals.pending := by
  have hw₁ := step_numbered hw hcall
  rcases suspend_call h hcall with ⟨-, rfl⟩ | ⟨hzero, q, rfl, hphase, -, -, hevents⟩
  · -- a process that is on its way out does not wait
    obtain ⟨p', hp', hreceives⟩ := others_run hw₁ hothers (World.set_self ..) (fun h => by cases h) hwait
    obtain rfl : p₂ = p' := Option.some.inj (hp.symm.trans hp')
    simp only [World.step, hp, hreceives.phase] at hwake
    cases hwake
  · have hlive : q.phase ≠ .zombie := by
      rw [hphase]
      exact fun h => by cases h
    obtain ⟨p', hp', hreceives⟩ := others_run hw₁ hothers (World.set_self ..) hlive hwait
    obtain rfl : p₂ = p' := Option.some.inj (hp.symm.trans hp')
    simp only [World.step, hp, hreceives.phase, hphase] at hwake
    split at hwake
    · next hpos =>
      cases hwake
      exact ⟨hzero, hpos, ⟨q, World.set_self .., hlive, hevents⟩, _, World.set_self .., rfl, rfl, rfl⟩
    · cases hwake

/-- The state after the return: the old mask is back, and the return to user mode is left. -/
theorem returns_state (hw : w₀.Numbered) (h : Begins w₀ pid mask p entry temporary)
    (hreturn : Resumes w₀ pid mask waiting pending w) :
    ∃ q, w.process pid = some q ∧ q.phase = .returning entry ∧ q.signals.blocked = p.signals.blocked ∧
      q.signals.pending = pending := by
  cases hreturn with
  | atOnce hp hcall hq hphase =>
    obtain rfl := Option.some.inj (h.process.symm.trans hp)
    obtain ⟨-, rfl⟩ := atOnce_spec h hcall hq hphase
    exact ⟨_, World.set_self .., rfl, rfl, rfl⟩
  | woken hcall hothers hwait hp hwake => exact (woken_spec hw h hcall hothers hwait hp hwake).2.2.2

/-- A quiet call returns with a signal pending that its mask does not block. -/
theorem returns_pending (hw : w₀.Numbered) (h : Begins w₀ pid mask p entry temporary)
    (hreturn : Resumes w₀ pid mask waiting pending w) (hquiet : Quiet w₀ pid mask p temporary waiting) :
    pending &&& ~~~temporary ≠ 0 := by
  cases hreturn with
  | atOnce hp hcall hq hphase =>
    obtain rfl := Option.some.inj (h.process.symm.trans hp)
    exact (atOnce_spec h hcall hq hphase).1
  | woken hcall hothers hwait hp hwake =>
    obtain ⟨hzero, htoken, ⟨q, hq, hlive, hevents⟩, -⟩ := woken_spec hw h hcall hothers hwait hp hwake
    have hnone : q.events = 0 := hevents.trans (hquiet.token hzero)
    obtain ⟨i, hi, hmask⟩ := others_run_token (step_numbered hw hcall) hothers hq hlive
      (fun hpos => absurd hpos (by omega)) (hquiet.sends.2 _ hcall) hwait hp htoken
    exact and_not_ne_zero hi hmask

/-! ## The return to user mode -/

/-- **A return acts on a signal exactly when** it is the native one and the signal is the first to act on. -/
theorem leave_carriedOut {mapped : Bool} {set : Word} (hf : p.FrameOk) (hphase : p.phase = .returning entry)
    (hset : ∀ k, set.getLsbD k = true → p.signals.pending.getLsbD k = true)
    (hp' : (w.leave pid p entry mapped).process pid = some p') :
    (∃ k, set.getLsbD k = true ∧ CarriedOut p p' k p.signals.blocked) ↔
      entry = .native ∧ ∃ k, set.getLsbD k = true ∧ p.signals.First k := by
  have hsame : p'.signals = p.signals → ¬ ∃ k, set.getLsbD k = true ∧ CarriedOut p p' k p.signals.blocked := by
    rintro he ⟨k, hk, hcarried⟩
    have htaken := hcarried.taken
    rw [he, hset k hk] at htaken
    cases htaken
  cases entry with
  | gate =>
    rw [World.leave, World.set_self] at hp'
    cases hp'
    exact iff_of_false (hsame rfl) (fun h => absurd h.1 (by decide))
  | fork =>
    rw [World.leave, World.set_self] at hp'
    cases hp'
    exact iff_of_false (hsame rfl) (fun h => absurd h.1 (by decide))
  | native =>
    obtain ⟨context, hcap⟩ := (hf (by rw [hphase]; rfl)).capture
    rcases hd : (port arch).deliver pid mapped p.thread with ⟨o, t⟩
    have hfirst := deliver_first hcap hd
    -- the thread is the one that the delivery left, and a fatal outcome is the end
    have hthread : p'.thread = t ∧ ((∃ status, o = .fatal status) → p'.phase = .zombie) ∧
        ((∃ address, o = .redirected address) → p'.phase = .user) := by
      simp only [World.leave, hd] at hp'
      split at hp'
      · next ho =>
        rw [exitCurrent_self] at hp'
        cases hp'
        refine ⟨(Prod.mk.inj ho).2.symm, fun _ => rfl, ?_⟩
        rintro ⟨address, rfl⟩
        cases ho
      · next ho hne =>
        rw [World.set_self] at hp'
        cases hp'
        refine ⟨by cases hne; rfl, ?_, fun _ => rfl⟩
        rintro ⟨status, rfl⟩
        cases hne
        exact absurd rfl (ho status)
    obtain ⟨ht, hfatal, hredirected⟩ := hthread
    have hsignals : p'.signals = t.signals := congrArg Thread.signals ht
    constructor
    · rintro ⟨k, hk, hcarried⟩
      refine ⟨rfl, k, hk, ?_⟩
      have htaken := hcarried.taken
      rw [hsignals] at htaken
      exact (hfirst.cleared k (hset k hk) htaken).resolve_left hcarried.noted
    · rintro ⟨-, k, hk, hk'⟩
      obtain ⟨htaken, hend⟩ := hfirst.first k hk'
      refine ⟨k, hk, hsignals ▸ htaken, hk'.1.2, ?_⟩
      rcases hend with hstatus | ⟨address, ho, henters⟩
      · exact .inl (hfatal hstatus)
      · exact .inr ⟨hredirected ⟨address, ho⟩, ht ▸ henters⟩

/-! ## Every run -/

theorem boot_numbered (mem : UserMem) (cpu : Cpu (TrapFrame arch)) : (World.boot mem cpu).Numbered :=
  fun _ hq => if_neg (Nat.ne_of_gt hq)

/-- What holds in every state. -/
def World.Sane (w : World arch) : Prop := w.Numbered ∧ w.Guarded

theorem step_sane (hw : w.Sane) (h : w.step e = some w') : w'.Sane := ⟨step_numbered hw.1 h, step_guarded hw.2 h⟩

theorem runs_sane {events : List (Event arch)} (hw : w.Sane) (hrun : runs World.step w events = some w') : w'.Sane := by
  have hall : Meets World.step (fun _ _ => True) w events := Meets.of_forall fun _ _ => trivial
  have hvisits : Visits World.step World.Sane w events := Visits.of_step (fun _ _ _ hs _ h => step_sane hs h) hw hall
  exact hvisits.last hrun

theorem Resumes.sane (hw : w₀.Sane) (hreturn : Resumes w₀ pid mask waiting pending w) : w.Sane := by
  cases hreturn with
  | atOnce hp hcall hq hphase => exact step_sane hw hcall
  | woken hcall hothers hwait hp hwake => exact step_sane (runs_sane (step_sane hw hcall) hwait) hwake

/-- **`rt_sigsuspend` waits for a signal and delivers it**, on every architecture, after every history and in every
interleaving, for a call that is quiet: it returns only with a signal pending that its mask does not block; and the
return to user mode acts on such a signal, with the original mask in the frame of its handler, exactly when it is the
native one and the signal is the first to act on under that mask. -/
theorem sigsuspend_delivers (mem : UserMem) (cpu : Cpu (TrapFrame arch)) {history : List (Event arch)}
    (hhistory : runs World.step (World.boot mem cpu) history = some w₀) (h : Begins w₀ pid mask p entry temporary)
    (hreturn : Resumes w₀ pid mask waiting pending w) (hquiet : Quiet w₀ pid mask p temporary waiting) :
    pending &&& ~~~temporary ≠ 0 ∧
      ∀ later w₁ p₁ mapped w₂ p₂, (∀ e ∈ later, e.pid ≠ pid) → runs World.step w later = some w₁ →
        w₁.process pid = some p₁ → w₁.step (.leave pid mapped) = some w₂ → w₂.process pid = some p₂ →
        ((∃ k, (pending &&& ~~~temporary).getLsbD k = true ∧ CarriedOut p₁ p₂ k p.signals.blocked) ↔
          entry = .native ∧ ∃ k, (pending &&& ~~~temporary).getLsbD k = true ∧ p₁.signals.First k) := by
  have hw₀ : w₀.Sane := runs_sane ⟨boot_numbered mem cpu, boot_guarded mem cpu⟩ hhistory
  refine ⟨returns_pending hw₀.1 h hreturn hquiet, fun later w₁ p₁ mapped w₂ p₂ hothers hrun hp₁ hleave hp₂ => ?_⟩
  obtain ⟨q, hq, hphase, hblocked, hpending⟩ := returns_state hw₀.1 h hreturn
  have hw := hreturn.sane hw₀
  obtain ⟨p', hp', hreceives⟩ := others_run hw.1 hothers hq (by rw [hphase]; nofun) hrun
  obtain rfl : p₁ = p' := Option.some.inj (hp₁.symm.trans hp')
  have hphase₁ : p₁.phase = .returning entry := hreceives.phase.trans hphase
  have hleave' : w₂ = w₁.leave pid p₁ entry mapped := by
    simp only [World.step, hp₁, hphase₁] at hleave
    exact (Option.some.inj hleave).symm
  subst hleave'
  rw [← hblocked, ← hreceives.blocked]
  refine leave_carriedOut ((runs_sane hw hrun).2 pid p₁ hp₁).2 hphase₁ (fun k hk => ?_) hp₂
  rw [BitVec.getLsbD_and, Bool.and_eq_true] at hk
  exact hreceives.pending k (hpending ▸ hk.1)

end Suspend

/-- Every page is mapped, and every byte has the value. -/
def filledMem (value : Byte) : UserMem := ⟨fun _ => some true, fun _ => value⟩

/-- A process makes a child, and both come into the kernel. -/
def suspendHistory : List (Event .x86_64) :=
  [.enter 1 .gate (filledMem 0) nativeCpu, .call 1 .clone, .leave 1 false, .leave 2 false,
    .enter 2 .gate (filledMem 0) nativeCpu, .enter 1 .native (filledMem 0) nativeCpu]

/-- The child sends SIGTERM to the parent while it waits with an empty mask. -/
theorem sigsuspend_delivers_sigterm :
    ∃ w₀ p pending w, runs World.step (World.boot (filledMem 0) nativeCpu) suspendHistory = some w₀ ∧
      Begins w₀ 1 8 p .native 0 ∧ Resumes w₀ 1 8 [.call 2 (.kill 1 15)] pending w ∧ pending &&& ~~~(0 : Word) ≠ 0 := by
  obtain ⟨w₀, hw₀⟩ : ∃ w₀, runs World.step (World.boot (filledMem 0) nativeCpu) suspendHistory = some w₀ := ⟨_, rfl⟩
  have hbegins : ∃ p, Begins w₀ 1 8 p .native 0 ∧ p.events = 0 := by
    cases hw₀
    exact ⟨_, ⟨rfl, rfl, _, rfl, rfl⟩, rfl⟩
  have hreturns : ∃ pending w, Resumes w₀ 1 8 [.call 2 (.kill 1 15)] pending w := by
    cases hw₀
    exact ⟨_, _, .woken rfl (by simp [Event.pid]) rfl rfl rfl⟩
  obtain ⟨p, hbegins, htoken⟩ := hbegins
  obtain ⟨pending, w, hreturns⟩ := hreturns
  have hquiet : Quiet w₀ 1 8 p 0 [.call 2 (.kill 1 15)] :=
    ⟨fun _ => htoken, Meets.of_forall fun _ _ _ _ => BitVec.getLsbD_zero⟩
  exact ⟨w₀, p, pending, w, hw₀, hbegins, hreturns,
    (sigsuspend_delivers (filledMem 0) nativeCpu hw₀ hbegins hreturns hquiet).1⟩

/-- A process sends itself SIGCHLD, and waits later. -/
def earlyHistory : List (Event .x86_64) :=
  [.enter 1 .gate (filledMem 0xff) nativeCpu, .call 1 (.kill 0 17), .leave 1 false,
    .enter 1 .native (filledMem 0xff) nativeCpu]

/-- The mask of the wait blocks all that can be blocked; the token of the earlier signal ends it with nothing pending
that the mask does not block. -/
theorem sigsuspend_returns_early :
    ∃ w₀ p pending w, runs World.step (World.boot (filledMem 0xff) nativeCpu) earlyHistory = some w₀ ∧
      Begins w₀ 1 8 p .native (~~~unblockableMask) ∧ Resumes w₀ 1 8 [] pending w ∧
      pending &&& ~~~(~~~unblockableMask) = 0 := by
  obtain ⟨w₀, hw₀⟩ : ∃ w₀, runs World.step (World.boot (filledMem 0xff) nativeCpu) earlyHistory = some w₀ := ⟨_, rfl⟩
  cases hw₀
  exact ⟨_, _, _, _, rfl, ⟨rfl, rfl, _, rfl, by decide⟩, .woken rfl nofun rfl rfl rfl, by decide⟩

end Koros.Signal
