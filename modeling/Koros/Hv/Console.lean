import Koros.Lib.Runs
import Koros.Hv.Irq

/-!
# Where console input goes

`console_mux.rs` shares the physical UART between the host's command line and the guests: after every exit the loop
takes at most one byte and gives it to `ConsoleMux::input`, which hands it on to the guest that is attached. Three
handlers read the data register on their own: the one of a guest that waits for an interrupt, the getchar hypercall
and the getchar page.

- `Exit.taken`: the bytes that a turn takes from the physical UART;
- `Hyp.Mediated`: a turn gives every byte it takes to the multiplexer, and a guest that is not attached ends the turn
  as if nothing had been typed;
- `Hyp.trap_congr`, `Hyp.trap_silent`: what a guest gets out of a trap depends on its own state and, where no handler
  finds a byte, not on the UART;
- `Hyp.console_mediated_iff`: a run is mediated exactly if no handler finds a byte in the UART.
-/
set_option autoImplicit false

namespace Koros.Hv

open Koros.Lib

/-! ## The bytes of a turn -/

namespace Exit

/-- The handler of the exit looks into the physical UART on its own. -/
def Polls (e : Exit) : Prop :=
  e.takesIrq = false ∧
    (Hyp.exceptionClass e = 0x01 ∨
      (Hyp.exceptionClass e = 0x16 ∨ Hyp.exceptionClass e = 0x17) ∧ e.vcpu.regs 0 = 0x100 ∨
      (Hyp.exceptionClass e = 0x20 ∨ Hyp.exceptionClass e = 0x24) ∧ e.isv = true ∧ e.ipa = 0x0a010000 ∧ e.wnr = false)

instance (e : Exit) : Decidable e.Polls := inferInstanceAs (Decidable (_ ∧ _))

/-- The bytes that the turn takes from the physical UART, in their order. -/
def taken (e : Exit) : List Byte := e.input.toList ++ if e.Polls then e.poll.toList else []

/-- The bytes on which the turn calls `ConsoleMux::input`. -/
def routed (e : Exit) : List Byte := e.input.toList

/-- The same exit with nothing typed. -/
def silent (e : Exit) : Exit := { e with input := none, poll := none }

/-- No handler that looks into the physical UART finds a byte there. -/
def Unpolled (e : Exit) : Prop := e.Polls → e.poll = none

instance (e : Exit) : Decidable e.Unpolled := inferInstanceAs (Decidable (_ → _))

theorem taken_eq_routed_iff (e : Exit) : e.taken = e.routed ↔ e.Unpolled := by
  by_cases hp : e.Polls <;> simp [taken, routed, Unpolled, hp]

end Exit

/-- The multiplexer takes a byte: a guest that is not done is attached on request. -/
def ConsoleMux.feed (done : Fin 2 → Bool) (c : ConsoleMux) (byte : Byte) : ConsoleMux :=
  match (c.input byte).1 with
  | .attach guest => if done guest then (c.input byte).2 else { (c.input byte).2 with active := some guest }
  | _ => (c.input byte).2

namespace Hyp

variable {h h' h₁ h₂ : Hyp} {e : Exit} {g : Fin 2}

/-- The multiplexer takes every byte of the turn once, and a guest that was not attached ends the turn as it would have
without any. -/
structure Mediated (h : Hyp) (e : Exit) (h' : Hyp) : Prop where
  once : e.taken = e.routed
  console : h'.console = e.taken.foldl (ConsoleMux.feed fun g => (h.gs g).done) h.console
  attached : ∀ g, h.console.active ≠ some g → (h.step e.silent).map (fun h'' => h''.gs g) = some (h'.gs g)

/-! ## What a guest gets out of a turn -/

theorem setGuest_of_ne {new : Guest} (hne : g ≠ h.cur) : (h.setGuest h.cur new).gs g = h.gs g :=
  Function.update_of_ne hne ..

/-- A trap changes no guest but the one that traps. -/
theorem trap_of_ne (e : Exit) (hne : g ≠ h.cur) : (h.trap e).gs g = h.gs g := by
  simp only [trap, hypercall, idle, abort]
  repeat' split
  all_goals exact setGuest_of_ne hne

/-- What the guest that traps gets depends on its own state. -/
theorem trap_congr (e : Exit) (hcur : h₁.cur = h₂.cur) (hg : h₁.gs g = h₂.gs g) :
    (h₁.trap e).gs g = (h₂.trap e).gs g := by
  by_cases hc : g = h₁.cur
  · subst hc
    simp only [trap, hypercall, idle, abort, stop, ← hcur, hg]
    repeat' split
    all_goals simp [setGuest]
  · rw [trap_of_ne e hc, trap_of_ne e (hcur ▸ hc), hg]

/-- So does what it gets from a physical interrupt. -/
theorem physicalIrq_congr (iar : Nat) (hcur : h₁.cur = h₂.cur) (hg : h₁.gs g = h₂.gs g) :
    (h₁.physicalIrq iar).map (fun h => h.gs g) = (h₂.physicalIrq iar).map fun h => h.gs g := by
  simp only [physicalIrq, ← hcur]
  by_cases hc : g = h₁.cur
  · subst hc
    rw [hg]
    repeat' split
    all_goals simp [setGuest, hg]
  · repeat' split
    all_goals simp [setGuest, Function.update_of_ne hc, hg]

/-! ## Where no handler finds a byte -/

theorem mmioAccess_silent {gid : Fin 2} {s : Guest} (hu : e.ipa = 0x0a010000 → e.wnr = false → e.poll = none) :
    mmioAccess gid s e.silent = mmioAccess gid s e := by
  unfold mmioAccess
  refine ite_congr rfl (fun _ => rfl) fun _ => ite_congr rfl (fun _ => rfl) fun _ => ite_congr rfl (fun _ => rfl)
    fun _ => ite_congr rfl (fun _ => rfl) fun _ => ite_congr rfl (fun hipa => ?_) fun _ => rfl
  refine ite_congr rfl (fun _ => rfl) fun hw => ?_
  have hpoll : e.poll = none := hu hipa (by simpa using hw)
  rw [hpoll]
  rfl

/-- A trap in which no handler finds a byte in the physical UART. -/
theorem trap_silent (hu : e.Unpolled) (hirq : e.takesIrq = false) (hvcpu : (h.gs h.cur).vcpu = e.vcpu) :
    h.trap e.silent = h.trap e := by
  unfold trap
  refine ite_congr rfl (fun hec => ?_) fun _ => ite_congr rfl (fun hec => ?_) fun _ =>
    ite_congr rfl (fun hec => ?_) fun _ => rfl
  · refine ite_congr rfl (fun hfunc => ?_) fun _ => rfl
    have hpoll : e.poll = none := hu ⟨hirq, .inr (.inl ⟨hec, hvcpu ▸ hfunc⟩)⟩
    rw [hpoll]
    rfl
  · have hpoll : e.poll = none := hu ⟨hirq, .inl hec⟩
    simp only [idle, hpoll]
    rfl
  · have hmmio : handleMmio h.cur (h.gs h.cur) e.silent = handleMmio h.cur (h.gs h.cur) e := by
      refine ite_congr rfl (fun hisv => ?_) fun _ => rfl
      rw [mmioAccess_silent fun hipa hw => hu ⟨hirq, .inr (.inr ⟨hec, hisv, hipa, hw⟩)⟩]
    simp only [abort, hmmio]

/-! ## Console input -/

theorem consoleInput_console (input : Option Byte) :
    (h.consoleInput input).console = input.toList.foldl (ConsoleMux.feed fun g => (h.gs g).done) h.console := by
  cases input with
  | none => rfl
  | some byte =>
    simp only [consoleInput, Option.toList_some, List.foldl_cons, List.foldl_nil, ConsoleMux.feed]
    cases (h.console.input byte).1 <;> rfl

/-- Input goes to the guest that is attached. -/
theorem input_guestByte {c : ConsoleMux} {byte b : Byte} (hin : (c.input byte).1 = .guestByte g b) :
    c.active = some g := by
  unfold ConsoleMux.input at hin
  split at hin
  · split_ifs at hin
    cases hin
    assumption
  · split_ifs at hin
    simp only [ConsoleMux.executeCommand] at hin
    split_ifs at hin

theorem consoleInput_of_ne (input : Option Byte) (hg : h.console.active ≠ some g) :
    (h.consoleInput input).gs g = h.gs g := by
  cases input with
  | none => rfl
  | some byte =>
    cases hact : (h.console.input byte).1 with
    | guestByte guest b =>
      have hne : g ≠ guest := fun heq => hg (heq ▸ input_guestByte hact)
      simp [consoleInput, hact, setGuest, Function.update_of_ne hne]
    | _ => simp [consoleInput, hact]

/-- Input leaves the registers of a guest alone. -/
theorem consoleInput_vcpu (input : Option Byte) : ((h.consoleInput input).gs g).vcpu = (h.gs g).vcpu := by
  cases input with
  | none => rfl
  | some byte =>
    cases hact : (h.console.input byte).1 with
    | guestByte guest b => by_cases hg : g = guest <;> simp [consoleInput, hact, setGuest, Function.update, hg]
    | _ => simp [consoleInput, hact]

theorem afterExit_vcpu : ((h.afterExit e).gs (h.afterExit e).cur).vcpu = e.vcpu := by
  rw [afterExit_cur]
  simp [afterExit, consoleInput_vcpu, setGuest]

theorem afterExit_silent (hg : h.console.active ≠ some g) : (h.afterExit e.silent).gs g = (h.afterExit e).gs g :=
  (consoleInput_of_ne (h := ({ h with cur := h.running } : Hyp).setGuest _ _) e.input hg).symm

theorem afterExit_console :
    (h.afterExit e).console = e.input.toList.foldl (ConsoleMux.feed fun g => (h.gs g).done) h.console := by
  have hdone : ∀ g, ((({ h with cur := h.running } : Hyp).setGuest h.running { h.gs h.running with vcpu := e.vcpu }).gs
      g).done = (h.gs g).done := by
    intro g
    by_cases hg : g = h.running <;> simp [setGuest, Function.update, hg]
  simp only [afterExit, consoleInput_console, hdone]
  rfl

theorem trap_console : (h.trap e).console = h.console := by
  simp only [trap, hypercall, idle, abort, stop]
  repeat' split
  all_goals rfl

theorem physicalIrq_console {iar : Nat} (hs : h.physicalIrq iar = some h') : h'.console = h.console := by
  simp only [physicalIrq] at hs
  repeat' split at hs
  all_goals cases hs
  all_goals rfl

/-! ## Turns and runs -/

theorem step_console (hs : h.step e = some h') :
    h'.console = e.input.toList.foldl (ConsoleMux.feed fun g => (h.gs g).done) h.console := by
  rw [← afterExit_console]
  rcases step_cases hs with ⟨-, hs⟩ | ⟨-, hs⟩
  · exact physicalIrq_console hs
  · exact hs ▸ trap_console

/-- A guest that is not attached ends a turn as it would have with nothing typed. -/
theorem step_attached (hu : e.Unpolled) (hs : h.step e = some h') (hg : h.console.active ≠ some g) :
    (h.step e.silent).map (fun h'' => h''.gs g) = some (h'.gs g) := by
  have hcur : (h.afterExit e.silent).cur = (h.afterExit e).cur := afterExit_cur.trans afterExit_cur.symm
  have hgs := afterExit_silent (e := e) hg
  have hrun : ¬((h.gs 0).done ∧ (h.gs 1).done) := by
    intro hdone
    simp [step, hdone] at hs
  rcases step_cases hs with ⟨hirq, hs⟩ | ⟨hirq, hs⟩
  · have hsil : h.step e.silent = (h.afterExit e.silent).physicalIrq e.iar.toNat :=
      (if_neg hrun).trans (if_pos hirq)
    rw [hsil, physicalIrq_congr _ hcur hgs, hs]
    rfl
  · have hsil : h.step e.silent = some ((h.afterExit e.silent).trap e.silent) :=
      (if_neg hrun).trans (if_neg (show ¬e.takesIrq = true by simp [hirq]))
    subst hs
    rw [hsil, Option.map_some, trap_congr _ hcur hgs, trap_silent hu (by simpa using hirq) afterExit_vcpu]

/-- **A turn is mediated exactly if no handler finds a byte.** -/
theorem step_mediated_iff (hs : h.step e = some h') : h.Mediated e h' ↔ e.Unpolled := by
  constructor
  · intro hm
    exact e.taken_eq_routed_iff.1 hm.once
  · intro hu
    have honce := e.taken_eq_routed_iff.2 hu
    refine ⟨honce, ?_, fun g hg => step_attached hu hs hg⟩
    rw [honce]
    exact step_console hs

/-- **Every turn of a run is mediated by the multiplexer exactly if none of its handlers finds a byte in the physical
UART.** -/
theorem console_mediated_iff (h : Hyp) (es : List Exit) :
    Takes step Mediated h es ↔ Takes step (fun _ e _ => e.Unpolled) h es := by
  induction es generalizing h with
  | nil => exact Iff.rfl
  | cons e es ih =>
    simp only [Takes]
    refine forall_congr' fun h' => imp_congr_right fun hs => ?_
    rw [ih, step_mediated_iff hs]

/-- A byte is typed while the host's command line has the console and guest 0 waits for an interrupt: guest 0 gets it. -/
theorem host_input_reaches_guest :
    boot.console.active = none ∧
      (runs step boot [{ wfiExit with poll := some 0x73 }]).map (fun h => (h.gs 0).vuart.rx) = some [0x73] ∧
      ¬Takes step Mediated boot [{ wfiExit with poll := some 0x73 }] := by
  refine ⟨by decide, by decide +kernel, fun hm => ?_⟩
  have hstep : (step boot { wfiExit with poll := some 0x73 }).isSome := by decide +kernel
  obtain ⟨h', hs⟩ := Option.isSome_iff_exists.1 hstep
  exact absurd (hm h' hs).1.once (by decide +kernel)

end Hyp

end Koros.Hv
