import Koros.Proc.Model

/-!
# Who holds a process

`exit_current` keeps `current`, a strong reference to the process it ends, on a kernel stack that is never unwound. So a
process that runs is held by the table and a zombie by the task that made it one (`Inv`), and a local of any other task
is never the last holder (`Inv.other_holder`): a drop in `sys_wait4` or `sys_clone` releases nothing.
-/

set_option autoImplicit false

namespace Koros.Proc

open Koros.Sched

variable {n m : Nat}

/-! ## The invariant -/

/-- The process that `exit_current` holds on the stack of its task. -/
def Pc.exiting : Pc → Option Nat
  | .exitMark _ o => some o
  | .exitTid o _ _ _ _ => some o
  | .exitNotify o _ _ => some o
  | .exited o => some o
  | _ => none

/-- The process that `exit_current` has made a zombie. -/
def Pc.dying : Pc → Option Nat
  | .exitTid o _ _ _ _ => some o
  | .exitNotify o _ _ => some o
  | .exited o => some o
  | _ => none

/-- The processes that `sys_wait4` has found to be zombies. -/
def Pc.found : Pc → List Nat
  | .waitStatus child => [child]
  | .waitReap child _ => [child]
  | .waitDrop child _ reaped => [child, reaped]
  | .waitReturn child _ => [child]
  | _ => []

/-- A process that runs is in the table; a zombie is held by the task that exits. -/
structure Inv (w : World n m) : Prop where
  live : ∀ o p, w.heap o = some p → p.state.zombie = false → Holder.table ∈ p.refs
  exiting : ∀ t o, (w.pc t).exiting = some o → ∃ p, w.heap o = some p ∧ Holder.stack t ∈ p.refs
  zombie : ∀ o p, w.heap o = some p → p.state.zombie = true → ∃ t, (w.pc t).dying = some o
  found : ∀ t, ∀ o ∈ (w.pc t).found, ∃ p, w.heap o = some p ∧ p.state.zombie = true
  reap : ∀ t child childPid p, w.pc t = .waitReap child childPid → w.heap child = some p → p.state.pid = childPid
  fresh : ∀ o p, w.heap o = some p → o < w.nextObj ∧ p.state.pid ≤ w.nextPid
  unique : ∀ o o' p p', w.heap o = some p → w.heap o' = some p' → p.state.pid = p'.state.pid → o = o'
  table : ∀ pid o, w.processes pid = some o → ∃ p, w.heap o = some p ∧ p.state.pid = pid
  returned : ∀ f, w.returned f = 0
  born : ∀ id, w.taskProcesses id ≠ none → id < w.sched.nextId
  process : ∀ t, w.pc t ≠ .user → w.currentPid t ≠ none
  kept : ∀ o < w.nextObj, ∃ p, w.heap o = some p

/-- The invariant says nothing about the scheduler but that task ids grow. -/
theorem Inv.setSched {w : World n m} (h : Inv w) {sched : Sys n m Unit} (hid : w.sched.nextId ≤ sched.nextId) :
    Inv { w with sched := sched } :=
  ⟨h.live, h.exiting, h.zombie, h.found, h.reap, h.fresh, h.unique, h.table, h.returned,
    fun id hne => Nat.lt_of_lt_of_le (h.born id hne) hid, h.process, h.kept⟩

/-- The invariant says nothing about the roots of the CPUs. -/
theorem Inv.setCpuRoot {w : World n m} (h : Inv w) (cpuRoot : Fin n → Nat) : Inv { w with cpuRoot := cpuRoot } :=
  ⟨h.live, h.exiting, h.zombie, h.found, h.reap, h.fresh, h.unique, h.table, h.returned, h.born, h.process,
    h.kept⟩

theorem Inv.setPc {w : World n m} (h : Inv w) {t : TaskRef n} {pc : Pc}
    (hexit : ∀ o, pc.exiting = some o → ∃ p, w.heap o = some p ∧ Holder.stack t ∈ p.refs)
    (hdying : ∀ o, (w.pc t).dying = some o → pc.dying = some o)
    (hfound : ∀ o ∈ pc.found, ∃ p, w.heap o = some p ∧ p.state.zombie = true)
    (hreap : ∀ child childPid p, pc = .waitReap child childPid → w.heap child = some p → p.state.pid = childPid)
    (hproc : pc ≠ .user → w.currentPid t ≠ none) : Inv (w.setPc t pc) := by
  have hcases : ∀ {P : TaskRef n → Pc → Prop}, P t pc → (∀ u, P u (w.pc u)) → ∀ u, P u ((w.setPc t pc).pc u) := by
    intro P ht hs u
    by_cases hu : u = t
    · subst hu
      simpa [World.setPc] using ht
    · simpa [World.setPc, hu] using hs u
  refine ⟨h.live, ?_, ?_, ?_, ?_, h.fresh, h.unique, h.table, h.returned, h.born, ?_, h.kept⟩
  · exact hcases (P := fun u pc => ∀ o, pc.exiting = some o → ∃ p, w.heap o = some p ∧ Holder.stack u ∈ p.refs)
      hexit h.exiting
  · intro o p hp hz
    obtain ⟨u, hu⟩ := h.zombie o p hp hz
    refine ⟨u, ?_⟩
    by_cases hut : u = t
    · subst hut
      simpa [World.setPc] using hdying o hu
    · simpa [World.setPc, hut] using hu
  · exact hcases (P := fun _ pc => ∀ o ∈ pc.found, ∃ p, w.heap o = some p ∧ p.state.zombie = true) hfound h.found
  · exact hcases (P := fun _ pc => ∀ child childPid p, pc = .waitReap child childPid → w.heap child = some p →
      p.state.pid = childPid) hreap h.reap
  · exact hcases (P := fun u pc => pc ≠ .user → w.currentPid u ≠ none) hproc h.process

/-- A process changes: its pid stays, a zombie stays one, and the holders the invariant speaks of stay. -/
theorem Inv.setProcess {w : World n m} (h : Inv w) {o : Nat} {p p' : Process n m} (hp : w.heap o = some p)
    (hpid : p'.state.pid = p.state.pid) (hzombie : p.state.zombie = true → p'.state.zombie = true)
    (hlive : p'.state.zombie = false → Holder.table ∈ p'.refs)
    (hexit : ∀ t, (w.pc t).exiting = some o → Holder.stack t ∈ p'.refs)
    (hdying : p'.state.zombie = true → ∃ t, (w.pc t).dying = some o) : Inv (w.setProcess o (some p')) := by
  have hself : (w.setProcess o (some p')).heap o = some p' := by simp [World.setProcess]
  have hne : ∀ {q}, q ≠ o → (w.setProcess o (some p')).heap q = w.heap q := by
    intro q hq
    simp [World.setProcess, hq]
  -- what holds of the old process with its pid and zombie state holds of the new one
  have hget : ∀ q r, (w.setProcess o (some p')).heap q = some r →
      ∃ r₀, w.heap q = some r₀ ∧ r.state.pid = r₀.state.pid ∧ (q = o → r = p') ∧ (q ≠ o → r = r₀) := by
    intro q r hr
    by_cases hq : q = o
    · subst hq
      rw [hself] at hr
      cases hr
      exact ⟨p, hp, hpid, fun _ => rfl, fun hne => absurd rfl hne⟩
    · rw [hne hq] at hr
      exact ⟨r, hr, rfl, fun heq => absurd heq hq, fun _ => rfl⟩
  have hput : ∀ q r, w.heap q = some r → ∃ r', (w.setProcess o (some p')).heap q = some r' ∧
      r'.state.pid = r.state.pid ∧ (r.state.zombie = true → r'.state.zombie = true) := by
    intro q r hr
    by_cases hq : q = o
    · subst hq
      rw [hp] at hr
      cases hr
      exact ⟨p', hself, hpid, hzombie⟩
    · exact ⟨r, by rw [hne hq]; exact hr, rfl, fun hz => hz⟩
  constructor
  · intro q r hr hz
    obtain ⟨r₀, hr₀, -, heq, hneq⟩ := hget q r hr
    by_cases hq : q = o
    · rw [heq hq] at hz ⊢
      exact hlive hz
    · rw [hneq hq] at hz ⊢
      exact h.live q r₀ hr₀ hz
  · intro t q hq
    obtain ⟨r, hr, hmem⟩ := h.exiting t q hq
    by_cases hqo : q = o
    · subst hqo
      exact ⟨p', hself, hexit t hq⟩
    · exact ⟨r, by rw [hne hqo]; exact hr, hmem⟩
  · intro q r hr hz
    obtain ⟨r₀, hr₀, -, heq, hneq⟩ := hget q r hr
    by_cases hq : q = o
    · subst hq
      rw [heq rfl] at hz
      exact hdying hz
    · rw [hneq hq] at hz
      exact h.zombie q r₀ hr₀ hz
  · intro t q hq
    obtain ⟨r, hr, hz⟩ := h.found t q hq
    obtain ⟨r', hr', -, hz'⟩ := hput q r hr
    exact ⟨r', hr', hz' hz⟩
  · intro t child childPid r hpc hr
    obtain ⟨r₀, hr₀, hpid₀, -, -⟩ := hget child r hr
    rw [hpid₀]
    exact h.reap t child childPid r₀ hpc hr₀
  · intro q r hr
    obtain ⟨r₀, hr₀, hpid₀, -, -⟩ := hget q r hr
    rw [hpid₀]
    exact h.fresh q r₀ hr₀
  · intro q q' r r' hr hr' heq
    obtain ⟨r₀, hr₀, hpid₀, -, -⟩ := hget q r hr
    obtain ⟨r₀', hr₀', hpid₀', -, -⟩ := hget q' r' hr'
    apply h.unique q q' r₀ r₀' hr₀ hr₀'
    rw [← hpid₀, ← hpid₀', heq]
  · intro pid q hq
    obtain ⟨r, hr, hpid₀⟩ := h.table pid q hq
    obtain ⟨r', hr', hpid', -⟩ := hput q r hr
    exact ⟨r', hr', hpid'.trans hpid₀⟩
  · exact h.returned
  · exact h.born
  · exact h.process
  · intro q hq
    obtain ⟨r, hr⟩ := h.kept q hq
    obtain ⟨r', hr', -, -⟩ := hput q r hr
    exact ⟨r', hr'⟩

theorem Pc.exiting_of_dying {pc : Pc} {o : Nat} (h : pc.dying = some o) : pc.exiting = some o := by
  cases pc <;> simp_all [Pc.dying, Pc.exiting]

theorem Pc.dying_eq_none {pc : Pc} (h : pc.exiting = none) : pc.dying = none := by
  cases pc <;> simp_all [Pc.dying, Pc.exiting]

/-! ## References -/

theorem clone_eq {w w' : World n m} {t : TaskRef n} {o : Nat} (h : w.clone t o = some w') :
    ∃ p, w.heap o = some p ∧ w' = w.setProcess o (some { p with refs := .stack t :: p.refs }) := by
  unfold World.clone at h
  split at h
  case h_1 p hp =>
    cases h
    exact ⟨p, hp, rfl⟩
  case h_2 => cases h

theorem Inv.clone {w w' : World n m} (hw : Inv w) {t : TaskRef n} {o : Nat} (h : w.clone t o = some w') : Inv w' := by
  obtain ⟨p, hp, rfl⟩ := clone_eq h
  refine hw.setProcess hp rfl (fun hz => hz) ?_ ?_ ?_
  · intro hz
    exact List.mem_cons_of_mem _ (hw.live o p hp hz)
  · intro u hu
    obtain ⟨q, hq, hmem⟩ := hw.exiting u o hu
    rw [hp] at hq
    cases hq
    exact List.mem_cons_of_mem _ hmem
  · exact hw.zombie o p hp

/-- **A local of a task that does not exit is never the last holder.** -/
theorem Inv.other_holder {w : World n m} (hw : Inv w) {t : TaskRef n} (ht : (w.pc t).exiting = none) {o : Nat}
    {p : Process n m} (hp : w.heap o = some p) : ∃ k, k ≠ Holder.stack t ∧ k ∈ p.refs := by
  cases hz : p.state.zombie with
  | false => exact ⟨.table, by simp, hw.live o p hp hz⟩
  | true =>
    obtain ⟨u, hu⟩ := hw.zombie o p hp hz
    have hexit := Pc.exiting_of_dying hu
    obtain ⟨q, hq, hmem⟩ := hw.exiting u o hexit
    rw [hp] at hq
    cases hq
    refine ⟨.stack u, ?_, hmem⟩
    rintro heq
    cases heq
    rw [ht] at hexit
    cases hexit

theorem Inv.drop_eq {w w' : World n m} (hw : Inv w) {c : Fin n} {t : TaskRef n} (ht : (w.pc t).exiting = none)
    {o : Nat} (h : w.drop c t o = some w') :
    ∃ p, w.heap o = some p ∧ w' = w.setProcess o (some { p with refs := p.refs.erase (.stack t) }) := by
  unfold World.drop at h
  split at h
  case h_1 p hp =>
    obtain ⟨k, hne, hmem⟩ := hw.other_holder ht hp
    have hleft : p.refs.erase (.stack t) ≠ [] := List.ne_nil_of_mem ((List.mem_erase_of_ne hne).mpr hmem)
    simp only [hleft, if_false, Option.some.injEq] at h
    exact ⟨p, hp, h.symm⟩
  case h_2 => cases h

theorem Inv.drop {w w' : World n m} (hw : Inv w) {c : Fin n} {t : TaskRef n} (ht : (w.pc t).exiting = none) {o : Nat}
    (h : w.drop c t o = some w') : Inv w' := by
  obtain ⟨p, hp, rfl⟩ := hw.drop_eq ht h
  refine hw.setProcess hp rfl (fun hz => hz) ?_ ?_ ?_
  · intro hz
    exact (List.mem_erase_of_ne (by simp)).mpr (hw.live o p hp hz)
  · intro u hu
    obtain ⟨q, hq, hmem⟩ := hw.exiting u o hu
    rw [hp] at hq
    cases hq
    have hne : Holder.stack u ≠ .stack t := by
      rintro heq
      cases heq
      rw [ht] at hu
      cases hu
    exact (List.mem_erase_of_ne hne).mpr hmem
  · exact hw.zombie o p hp

/-- Dropping a local changes neither positions nor zombies. -/
theorem Inv.drop_frame {w w' : World n m} (hw : Inv w) {c : Fin n} {t : TaskRef n} (ht : (w.pc t).exiting = none)
    {o : Nat} (h : w.drop c t o = some w') :
    w'.pc = w.pc ∧ ∀ q p, w.heap q = some p → p.state.zombie = true → ∃ p', w'.heap q = some p' ∧ p'.state.zombie = true := by
  obtain ⟨r, hr, rfl⟩ := hw.drop_eq ht h
  refine ⟨rfl, fun q p hp hz => ?_⟩
  by_cases hq : q = o
  · subst hq
    rw [hr] at hp
    cases hp
    exact ⟨{ r with refs := r.refs.erase (.stack t) }, by simp [World.setProcess], hz⟩
  · exact ⟨p, by simp [World.setProcess, hq, hp], hz⟩

/-- A position that holds no process and expects nothing. -/
theorem Inv.setPc_plain {w : World n m} (hw : Inv w) {t : TaskRef n} (ht : (w.pc t).exiting = none) {pc : Pc}
    (hexit : pc.exiting = none) (hfound : pc.found = []) (hproc : pc ≠ .user → w.currentPid t ≠ none) :
    Inv (w.setPc t pc) := by
  apply hw.setPc
  · simp [hexit]
  · simp [Pc.dying_eq_none ht]
  · simp [hfound]
  · rintro child childPid p rfl
    cases hfound
  · exact hproc

/-- A process that runs enters the table under the next pid. -/
theorem Inv.newProcess {w : World n m} (hw : Inv w) {p : Process n m} (hpid : p.state.pid = w.nextPid + 1)
    (hzombie : p.state.zombie = false) (htable : Holder.table ∈ p.refs) :
    Inv { w.setProcess w.nextObj (some p) with
      nextPid := w.nextPid + 1, nextObj := w.nextObj + 1,
      processes := Function.update w.processes (w.nextPid + 1) (some w.nextObj) } := by
  have hnone : ∀ {o q}, w.heap o = some q → o ≠ w.nextObj := by
    rintro o q hq rfl
    exact absurd (hw.fresh _ q hq).1 (Nat.lt_irrefl _)
  have hself : (w.setProcess w.nextObj (some p)).heap w.nextObj = some p := by simp [World.setProcess]
  have hold : ∀ {o q}, w.heap o = some q → (w.setProcess w.nextObj (some p)).heap o = some q := by
    intro o q hq
    simp [World.setProcess, hnone hq, hq]
  have hget : ∀ {o q}, (w.setProcess w.nextObj (some p)).heap o = some q →
      (o = w.nextObj ∧ q = p) ∨ w.heap o = some q := by
    intro o q hq
    by_cases ho : o = w.nextObj
    · subst ho
      rw [hself] at hq
      exact .inl ⟨rfl, (Option.some.inj hq).symm⟩
    · exact .inr (by simpa [World.setProcess, ho] using hq)
  constructor
  · intro o q hq hz
    rcases hget hq with ⟨-, rfl⟩ | hq
    · exact htable
    · exact hw.live o q hq hz
  · intro u o hu
    obtain ⟨q, hq, hmem⟩ := hw.exiting u o hu
    exact ⟨q, hold hq, hmem⟩
  · intro o q hq hz
    rcases hget hq with ⟨-, rfl⟩ | hq
    · rw [hzombie] at hz
      cases hz
    · exact hw.zombie o q hq hz
  · intro u o ho
    obtain ⟨q, hq, hz⟩ := hw.found u o ho
    exact ⟨q, hold hq, hz⟩
  · intro u child childPid q hpc hq
    have hmem : child ∈ (w.pc u).found := by
      rw [show w.pc u = .waitReap child childPid from hpc]
      simp [Pc.found]
    obtain ⟨r, hr, -⟩ := hw.found u child hmem
    rcases hget hq with ⟨heq, -⟩ | hq
    · exact absurd heq (hnone hr)
    · exact hw.reap u child childPid q hpc hq
  · intro o q hq
    rcases hget hq with ⟨rfl, rfl⟩ | hq
    · exact ⟨Nat.lt_succ_self _, Nat.le_of_eq hpid⟩
    · have hfr := hw.fresh o q hq
      exact ⟨Nat.lt_succ_of_lt hfr.1, Nat.le_succ_of_le hfr.2⟩
  · intro o o' q q' hq hq' heq
    rcases hget hq with ⟨ho, hqp⟩ | hold₁ <;> rcases hget hq' with ⟨ho', hqp'⟩ | hold₂
    · rw [ho, ho']
    · have hfr := (hw.fresh o' q' hold₂).2
      rw [← heq, hqp, hpid] at hfr
      omega
    · have hfr := (hw.fresh o q hold₁).2
      rw [heq, hqp', hpid] at hfr
      omega
    · exact hw.unique o o' q q' hold₁ hold₂ heq
  · intro pid o ho
    by_cases hp : pid = w.nextPid + 1
    · subst hp
      have ho' : w.nextObj = o := by simpa using ho
      subst ho'
      exact ⟨p, hself, hpid⟩
    · obtain ⟨q, hq, hpq⟩ := hw.table pid o (by simpa [hp] using ho)
      exact ⟨q, hold hq, hpq⟩
  · exact hw.returned
  · exact hw.born
  · exact hw.process
  · intro o ho
    by_cases heq : o = w.nextObj
    · subst heq
      exact ⟨p, hself⟩
    · obtain ⟨q, hq⟩ := hw.kept o (Nat.lt_of_le_of_ne (Nat.le_of_lt_succ ho) heq)
      exact ⟨q, hold hq⟩

end Koros.Proc
