import Koros.Proc.Holders
import Koros.Sched.Conserve

/-!
# The invariant along runs

Every step of every CPU keeps `Inv` (`Inv.step`), one lemma for each section of the process code; so does every run
(`Inv.run`).
-/

set_option autoImplicit false

namespace Koros.Proc

open Koros.Sched

variable {n m : Nat}

/-! ## The scheduler -/

theorem advance_nextId {s s' : Sys n m Unit} {c : Fin n} (h : s.advance c = some s') : s'.nextId = s.nextId := by
  cases advance_cases h <;> rfl

/-- Ids are handed out in order. -/
theorem call_nextId {s s' : Sys n m Unit} {c : Fin n} {k : Call m Unit} (h : s.call c k = some s') :
    s.nextId ≤ s'.nextId := by
  obtain ⟨-, hcalled, -⟩ := call_cases h
  cases hcalled with
  | taskNew => exact Nat.le_succ _
  | _ => exact Nat.le_refl _

theorem Inv.map_sched {w w' : World n m} (hw : Inv w) {r : Option (Sys n m Unit)}
    (hid : ∀ s', r = some s' → w.sched.nextId ≤ s'.nextId) (h : (r.map fun sched => { w with sched := sched }) = some w') :
    Inv w' := by
  cases r with
  | none => cases h
  | some s' =>
    cases h
    exact hw.setSched (hid s' rfl)

theorem Inv.advance {w w' : World n m} {c : Fin n} (hw : Inv w) (h : w.advance c = some w') : Inv w' := by
  unfold World.advance at h
  cases hs : w.sched.advance c with
  | none => simp [hs] at h
  | some s' =>
    have hid : w.sched.nextId ≤ s'.nextId := Nat.le_of_eq (advance_nextId hs).symm
    simp only [hs, Option.map_some, Option.some.injEq] at h
    subst h
    split
    · exact (hw.setSched hid).setCpuRoot _
    · exact hw.setSched hid

/-! ## The steps of a task -/

section Steps

variable {w w' : World n m} {c : Fin n} {t : TaskRef n}

theorem Inv.allocProcess (hw : Inv w) (ht : (w.pc t).exiting = none) {space : Space} {tid : Nat} {events : Fin m}
    (h : w.allocProcess t space tid events = some w') : Inv w' := by
  unfold World.allocProcess at h
  split at h
  case h_1 => cases h
  case h_2 parent hparent =>
    cases h
    refine Inv.setPc_plain (hw.newProcess ?_ ?_ ?_) ?_ ?_ ?_ ?_
    · rfl
    · rfl
    · simp
    · exact ht
    · rfl
    · rfl
    · intro _
      have hcur : w.currentPid t ≠ none := by simp [hparent]
      exact hcur

/-- A task that is not associated with a process is in no process code. -/
theorem Inv.pc_eq_user (hw : Inv w) (h : w.currentPid t = none) : w.pc t = .user := by
  by_contra hne
  exact hw.process t hne h

/-- The next task is associated with a process before it can run. -/
theorem Inv.bindTask (hw : Inv w) (taskRoot : TaskRef n → Nat) (pid : Nat) :
    Inv { w with
      sched := w.sched.taskNew (), taskRoot := taskRoot,
      taskProcesses := Function.update w.taskProcesses w.sched.nextId (some pid) } := by
  refine ⟨hw.live, hw.exiting, hw.zombie, hw.found, hw.reap, hw.fresh, hw.unique, hw.table, hw.returned, ?_, ?_,
    hw.kept⟩
  · intro id hne
    show id < w.sched.nextId + 1
    by_cases hid : id = w.sched.nextId
    · omega
    · have hlt := hw.born id (by simpa [hid] using hne)
      omega
  · intro u hu
    have hold := hw.process u hu
    cases u with
    | idle d => exact hold
    | task id =>
      show Function.update w.taskProcesses w.sched.nextId (some pid) id ≠ none
      by_cases hid : id = w.sched.nextId
      · simp [hid]
      · rw [Function.update_of_ne hid]
        exact hold

theorem Inv.spawnProcess (hw : Inv w) {child : Nat} (hpc : w.pc t = .forkSpawn child)
    (h : w.spawnProcess t child = some w') : Inv w' := by
  have hcur : w.currentPid t ≠ none := hw.process t (by simp [hpc])
  have hunborn : w.taskProcesses w.sched.nextId = none := by
    by_contra hne
    exact Nat.lt_irrefl _ (hw.born _ hne)
  have huser : w.pc (.task w.sched.nextId) = .user := hw.pc_eq_user hunborn
  have hne : t ≠ .task w.sched.nextId := by
    rintro rfl
    rw [huser] at hpc
    cases hpc
  unfold World.spawnProcess at h
  split at h
  case h_1 => cases h
  case h_2 p hp =>
    split at h
    case h_1 => cases h
    case h_2 space hspace =>
      cases h
      refine Inv.setPc_plain (Inv.setPc_plain (hw.bindTask _ p.state.pid) ?_ ?_ ?_ ?_) ?_ ?_ ?_ ?_
      · show (w.pc (.task w.sched.nextId)).exiting = none
        rw [huser]
        rfl
      · rfl
      · rfl
      · intro _
        show Function.update w.taskProcesses w.sched.nextId (some p.state.pid) w.sched.nextId ≠ none
        simp
      · show (Function.update w.pc (.task w.sched.nextId) .entry t).exiting = none
        rw [Function.update_of_ne hne, hpc]
        rfl
      · rfl
      · rfl
      · intro _
        cases t with
        | idle d => exact hcur
        | task id =>
          show Function.update w.taskProcesses w.sched.nextId (some p.state.pid) id ≠ none
          have hid : id ≠ w.sched.nextId := fun heq => hne (by rw [heq])
          rw [Function.update_of_ne hid]
          exact hcur

theorem Inv.pushTask (hw : Inv w) {child id : Nat} (hpc : w.pc t = .forkPush child id)
    (h : w.pushTask t child id = some w') : Inv w' := by
  have hcur : w.currentPid t ≠ none := hw.process t (by simp [hpc])
  unfold World.pushTask Sys.spawn at h
  split at h
  · cases h
    refine Inv.setPc_plain (hw.setSched ?_) ?_ rfl rfl ?_
    · exact Nat.le_refl _
    · show (w.pc t).exiting = none
      rw [hpc]
      rfl
    · exact fun _ => hcur
  · cases h

/-- A clone, and a position that expects nothing of the process. -/
theorem Inv.clone_setPc (hw : Inv w) (ht : (w.pc t).exiting = none) {o : Nat} {w₁ : World n m}
    (hc : w.clone t o = some w₁) {pc : Pc} (hexit : pc.exiting = none) (hfound : pc.found = [])
    (hproc : pc ≠ .user → w.currentPid t ≠ none) : Inv (w₁.setPc t pc) := by
  have hw₁ := hw.clone hc
  obtain ⟨p, -, rfl⟩ := clone_eq hc
  exact hw₁.setPc_plain ht hexit hfound hproc

theorem Inv.forkChildEntry (hw : Inv w) (hpc : w.pc t = .entry) (h : w.forkChildEntry c t = some w') : Inv w' := by
  have ht : (w.pc t).exiting = none := by
    rw [hpc]
    rfl
  unfold World.forkChildEntry at h
  split at h
  case h_1 => cases h
  case h_2 o ho =>
    split at h
    case h_1 => cases h
    case h_2 p hp =>
      cases hc : w.clone t o with
      | none => simp [hc] at h
      | some w₁ =>
        simp only [hc, Option.map_some, Option.some.injEq] at h
        subst h
        have hw₁ : Inv (w₁.setPc t .user) := hw.clone_setPc ht hc rfl rfl fun hne => absurd rfl hne
        exact hw₁.setCpuRoot _

/-- A drop, and a position that expects nothing of the process. -/
theorem Inv.drop_setPc (hw : Inv w) (ht : (w.pc t).exiting = none) {o : Nat}
    {pc : Pc} (hexit : pc.exiting = none) (hfound : ∀ q ∈ pc.found, ∃ p, w.heap q = some p ∧ p.state.zombie = true)
    (hreap : ∀ child childPid, pc ≠ .waitReap child childPid) (hproc : pc ≠ .user → w.currentPid t ≠ none)
    {w₁ : World n m} (hd : w.drop c t o = some w₁) : Inv (w₁.setPc t pc) := by
  have hw₁ := hw.drop ht hd
  obtain ⟨hpcs, hz⟩ := hw.drop_frame ht hd
  have hcur : w₁.currentPid t = w.currentPid t := by
    obtain ⟨p, -, rfl⟩ := hw.drop_eq ht hd
    rfl
  apply hw₁.setPc
  · simp [hexit]
  · rw [hpcs]
    simp [Pc.dying_eq_none ht]
  · intro q hq
    obtain ⟨p, hp, hzp⟩ := hfound q hq
    exact hz q p hp hzp
  · intro child childPid p heq
    exact absurd heq (hreap child childPid)
  · rw [hcur]
    exact hproc

theorem Inv.exitCurrent (hw : Inv w) (ht : (w.pc t).exiting = none) {code : Int}
    (h : w.exitCurrent t code = some w') : Inv w' := by
  unfold World.exitCurrent at h
  split at h
  case h_1 => cases h
  case h_2 o ho =>
    have hcur : w.currentPid t ≠ none := by
      intro hnone
      simp [World.currentProcess, hnone] at ho
    cases hc : w.clone t o with
    | none => simp [hc] at h
    | some w₁ =>
      simp only [hc, Option.map_some, Option.some.injEq] at h
      subst h
      have hw₁ := hw.clone hc
      obtain ⟨p, hp, rfl⟩ := clone_eq hc
      apply hw₁.setPc
      · -- `current` is on the stack from here on
        intro q hq
        cases hq
        exact ⟨{ p with refs := .stack t :: p.refs }, by simp [World.setProcess], by simp⟩
      · intro q hq
        have hnone : (w.pc t).dying = some q := hq
        rw [Pc.dying_eq_none ht] at hnone
        cases hnone
      · simp [Pc.found]
      · intro child childPid q heq
        cases heq
      · exact fun _ => hcur

theorem Inv.exitMark (hw : Inv w) {code : Int} {o : Nat} (hpc : w.pc t = .exitMark code o)
    (h : w.exitMark t code o = some w') : Inv w' := by
  have hcur : w.currentPid t ≠ none := hw.process t (by simp [hpc])
  obtain ⟨p₀, hp₀, hmem⟩ := hw.exiting t o (by rw [hpc]; rfl)
  unfold World.exitMark at h
  split at h
  case h_1 => cases h
  case h_2 p hp =>
    rw [hp₀] at hp
    cases hp
    cases h
    -- first the position, which accounts for the zombie, then the process
    have hpcInv : Inv (w.setPc t (.exitTid o p₀.state.pid p₀.state.parent p₀.state.clearChildTid
        (p₀.state.addressSpace.map Space.root))) := by
      apply hw.setPc
      · intro q hq
        cases hq
        exact ⟨p₀, hp₀, hmem⟩
      · simp [hpc, Pc.dying]
      · simp [Pc.found]
      · intro child childPid q heq
        cases heq
      · exact fun _ => hcur
    refine hpcInv.setProcess (o := o) hp₀ rfl (fun _ => rfl) ?_ ?_ ?_
    · intro hz
      cases hz
    · intro u hu
      obtain ⟨q, hq, hm⟩ := hpcInv.exiting u o hu
      have hq' : w.heap o = some q := hq
      rw [hp₀] at hq'
      cases hq'
      exact hm
    · intro _
      exact ⟨t, by simp [World.setPc, Pc.dying]⟩

theorem Inv.setPc_exiting (hw : Inv w) {o : Nat} (hexit : (w.pc t).exiting = some o) {pc : Pc}
    (hdying : pc.dying = some o) (hfound : pc.found = []) : Inv (w.setPc t pc) := by
  have hne : w.pc t ≠ .user := by
    intro heq
    rw [heq] at hexit
    cases hexit
  have hcur : w.currentPid t ≠ none := hw.process t hne
  apply hw.setPc
  · intro q hq
    have hqo : pc.exiting = some o := Pc.exiting_of_dying hdying
    rw [hqo] at hq
    cases hq
    exact hw.exiting t o hexit
  · intro q hq
    have hqo := Pc.exiting_of_dying hq
    rw [hexit] at hqo
    cases hqo
    exact hdying
  · simp [hfound]
  · rintro child childPid p rfl
    cases hfound
  · exact fun _ => hcur

theorem Inv.exitTid (hw : Inv w) {o pid parent tid : Nat} {root : Option Nat}
    (hpc : w.pc t = .exitTid o pid parent tid root) : Inv (w.exitTid c t o pid parent tid root) := by
  have hexit : (w.pc t).exiting = some o := by
    rw [hpc]
    rfl
  have hw₁ : Inv (w.setPc t (.exitNotify o pid parent)) := hw.setPc_exiting hexit rfl rfl
  unfold World.exitTid
  cases root with
  | none => exact hw₁
  | some root =>
    dsimp only
    split
    · exact hw₁.setCpuRoot _
    · exact hw₁

theorem Inv.exitNotify (hw : Inv w) {o pid parent : Nat} (hpc : w.pc t = .exitNotify o pid parent)
    (h : w.exitNotify c t o pid parent = some w') : Inv w' := by
  have hexit : (w.pc t).exiting = some o := by
    rw [hpc]
    rfl
  have hw₁ : Inv (w.setPc t (.exited o)) := hw.setPc_exiting hexit rfl rfl
  simp only [World.exitNotify] at h
  split at h
  · split at h
    · exact hw₁.map_sched (fun s' hs => call_nextId hs) h
    · cases h
      exact hw₁
  · cases h
    exact hw₁

theorem Inv.waitEvents (hw : Inv w) {pid : Nat} (h : w.waitEvents c pid = some w') : Inv w' := by
  unfold World.waitEvents at h
  split at h
  · cases h
  · exact hw.map_sched (fun s' hs => call_nextId hs) h

/-- What `matching_zombie` returns is a zombie. -/
theorem matchingZombie_zombie {parent pid : Nat} {requested : Int} (h : w.matchingZombie parent requested = some pid) :
    ∃ p, w.lookup pid = some p ∧ p.zombie = true := by
  have htest := List.find?_some h
  split at htest
  case h_1 p hp =>
    simp only [Bool.and_eq_true] at htest
    exact ⟨p, hp, htest.1.2⟩
  case h_2 => cases htest

theorem Inv.waitLoop (hw : Inv w) {requested : Int} {nohang : Bool} (hpc : w.pc t = .waitLoop requested nohang)
    (h : w.waitLoop c t requested nohang = some w') : Inv w' := by
  have hcur : w.currentPid t ≠ none := hw.process t (by simp [hpc])
  have ht : (w.pc t).exiting = none := by
    rw [hpc]
    rfl
  unfold World.waitLoop at h
  split at h
  case h_1 => cases h
  case h_2 parent hparent =>
    split at h
    case isFalse => exact hw.waitEvents h
    case isTrue =>
      split at h
      case h_2 =>
        split at h
        · cases h
          exact hw.setPc_plain ht rfl rfl fun hne => absurd rfl hne
        · exact hw.waitEvents h
      case h_1 child hchild =>
        cases hm : w.matchingZombie parent requested with
        | none => simp [hm] at hchild
        | some pid =>
          have hproc : w.processes pid = some child := by simpa [hm] using hchild
          obtain ⟨st, hst, hz⟩ := matchingZombie_zombie hm
          cases hc : w.clone t child with
          | none => simp [hc] at h
          | some w₁ =>
            simp only [hc, Option.map_some, Option.some.injEq] at h
            subst h
            have hw₁ := hw.clone hc
            obtain ⟨p, hp, rfl⟩ := clone_eq hc
            have hzp : p.state.zombie = true := by
              have heq : p.state = st := by simpa [World.lookup, hproc, hp] using hst
              rw [heq]
              exact hz
            apply hw₁.setPc
            · simp [Pc.exiting]
            · intro q hq
              have hnone : (w.pc t).dying = some q := hq
              rw [Pc.dying_eq_none ht] at hnone
              cases hnone
            · intro q hq
              have hqc : q = child := by simpa [Pc.found] using hq
              subst hqc
              exact ⟨{ p with refs := .stack t :: p.refs }, by simp [World.setProcess], hzp⟩
            · intro child' childPid q heq
              cases heq
            · exact fun _ => hcur

theorem Inv.waitStatus (hw : Inv w) {child : Nat} {fault : Bool} (hpc : w.pc t = .waitStatus child)
    (h : w.waitStatus c t child fault = some w') : Inv w' := by
  have hcur : w.currentPid t ≠ none := hw.process t (by simp [hpc])
  have ht : (w.pc t).exiting = none := by
    rw [hpc]
    rfl
  unfold World.waitStatus at h
  split at h
  case h_1 => cases h
  case h_2 p hp =>
    split at h
    case isTrue =>
      cases hd : w.drop c t child with
      | none => simp [hd] at h
      | some w₁ =>
        simp only [hd, Option.map_some, Option.some.injEq] at h
        subst h
        exact hw.drop_setPc ht rfl (by simp [Pc.found]) (by simp) (fun hne => absurd rfl hne) hd
    case isFalse =>
      cases h
      apply hw.setPc
      · simp [Pc.exiting]
      · simp [Pc.dying_eq_none ht]
      · intro q hq
        exact hw.found t q (by rw [hpc]; simpa [Pc.found] using hq)
      · intro child' childPid q heq hq
        cases heq
        rw [hp] at hq
        cases hq
        rfl
      · exact fun _ => hcur

theorem Inv.waitReap (hw : Inv w) {child childPid : Nat} (hpc : w.pc t = .waitReap child childPid)
    (h : w.waitReap t child childPid = some w') : Inv w' := by
  have hcur : w.currentPid t ≠ none := hw.process t (by simp [hpc])
  have ht : (w.pc t).exiting = none := by
    rw [hpc]
    rfl
  obtain ⟨p, hp, hz⟩ := hw.found t child (by rw [hpc]; simp [Pc.found])
  have hpid : p.state.pid = childPid := hw.reap t child childPid p hpc hp
  unfold World.waitReap at h
  split at h
  case h_1 => cases h
  case h_2 reaped hreaped =>
    -- the table has one process under this pid, so it is the zombie that was found
    obtain ⟨q, hq, hqpid⟩ := hw.table childPid reaped hreaped
    obtain rfl : child = reaped := hw.unique child reaped p q hp hq (hpid.trans hqpid.symm)
    split at h
    case h_1 => cases h
    case h_2 r hr =>
      rw [hp] at hr
      cases hr
      cases h
      have hproc : Inv (w.setProcess child (some { p with refs := .stack t :: p.refs.erase .table })) := by
        refine hw.setProcess hp rfl (fun hz => hz) ?_ ?_ ?_
        · intro hlive
          rw [show p.state.zombie = false from hlive] at hz
          cases hz
        · intro u hu
          obtain ⟨q', hq', hmem⟩ := hw.exiting u child hu
          rw [hp] at hq'
          cases hq'
          exact List.mem_cons_of_mem _ ((List.mem_erase_of_ne (by simp)).mpr hmem)
        · exact fun _ => hw.zombie child p hp hz
      have htable : Inv { w.setProcess child (some { p with refs := .stack t :: p.refs.erase .table }) with
          processes := Function.update w.processes childPid none } := by
        refine ⟨hproc.live, hproc.exiting, hproc.zombie, hproc.found, hproc.reap, hproc.fresh, hproc.unique, ?_,
          hproc.returned, hproc.born, hproc.process, hproc.kept⟩
        intro pid o ho
        by_cases hpp : pid = childPid
        · simp [hpp] at ho
        · exact hproc.table pid o (by simpa [World.setProcess, hpp] using ho)
      have hself : (w.setProcess child (some { p with refs := .stack t :: p.refs.erase .table })).heap child =
          some { p with refs := .stack t :: p.refs.erase .table } := by simp [World.setProcess]
      apply htable.setPc
      · simp [Pc.exiting]
      · intro o ho
        have hnone : (w.pc t).dying = some o := ho
        rw [Pc.dying_eq_none ht] at hnone
        cases hnone
      · intro o ho
        have hoc : o = child := by simpa [Pc.found] using ho
        subst hoc
        exact ⟨_, hself, hz⟩
      · intro child' childPid' q' heq
        cases heq
      · exact fun _ => hcur

theorem Inv.waitDrop (hw : Inv w) {child childPid reaped : Nat} (hpc : w.pc t = .waitDrop child childPid reaped)
    (h : w.waitDrop c t child childPid reaped = some w') : Inv w' := by
  have hcur : w.currentPid t ≠ none := hw.process t (by simp [hpc])
  have ht : (w.pc t).exiting = none := by
    rw [hpc]
    rfl
  unfold World.waitDrop at h
  cases hd : w.drop c t reaped with
  | none => simp [hd] at h
  | some w₁ =>
    simp only [hd, Option.map_some, Option.some.injEq] at h
    subst h
    refine hw.drop_setPc ht rfl ?_ (by simp) (fun _ => hcur) hd
    intro q hq
    have hqc : q = child := by simpa [Pc.found] using hq
    subst hqc
    exact hw.found t q (by rw [hpc]; simp [Pc.found])

theorem Inv.waitReturn (hw : Inv w) {child childPid : Nat} (hpc : w.pc t = .waitReturn child childPid)
    (h : w.waitReturn c t child childPid = some w') : Inv w' := by
  have ht : (w.pc t).exiting = none := by
    rw [hpc]
    rfl
  unfold World.waitReturn at h
  cases hd : w.drop c t child with
  | none => simp [hd] at h
  | some w₁ =>
    simp only [hd, Option.map_some, Option.some.injEq] at h
    subst h
    have hw₁ : Inv (w₁.setPc t .user) :=
      hw.drop_setPc ht rfl (by simp [Pc.found]) (by simp) (fun hne => absurd rfl hne) hd
    exact ⟨hw₁.live, hw₁.exiting, hw₁.zombie, hw₁.found, hw₁.reap, hw₁.fresh, hw₁.unique, hw₁.table, hw₁.returned,
      hw₁.born, hw₁.process, hw₁.kept⟩

theorem Inv.go (hw : Inv w) {fault : Bool} (h : w.go c t fault = some w') : Inv w' := by
  unfold World.go at h
  cases hpc : w.pc t with
  | entry => exact hw.forkChildEntry hpc (by simpa only [hpc] using h)
  | user => simp [hpc] at h
  | forkSpawn child => exact hw.spawnProcess hpc (by simpa only [hpc] using h)
  | forkPush child id => exact hw.pushTask hpc (by simpa only [hpc] using h)
  | forkReturn child =>
    simp only [hpc] at h
    cases hd : w.drop c t child with
    | none => simp [hd] at h
    | some w₁ =>
      simp only [hd, Option.map_some, Option.some.injEq] at h
      subst h
      have ht : (w.pc t).exiting = none := by
        rw [hpc]
        rfl
      exact hw.drop_setPc ht rfl (by simp [Pc.found]) (by simp) (fun hne => absurd rfl hne) hd
  | waitLoop requested nohang => exact hw.waitLoop hpc (by simpa only [hpc] using h)
  | waitStatus child => exact hw.waitStatus hpc (by simpa only [hpc] using h)
  | waitReap child childPid => exact hw.waitReap hpc (by simpa only [hpc] using h)
  | waitDrop child childPid reaped => exact hw.waitDrop hpc (by simpa only [hpc] using h)
  | waitReturn child childPid => exact hw.waitReturn hpc (by simpa only [hpc] using h)
  | exitMark code current => exact hw.exitMark hpc (by simpa only [hpc] using h)
  | exitTid current pid parent tid root =>
    simp only [hpc, Option.some.injEq] at h
    subst h
    exact hw.exitTid hpc
  | exitNotify current pid parent => exact hw.exitNotify hpc (by simpa only [hpc] using h)
  | exited current =>
    simp only [hpc] at h
    exact hw.map_sched (fun s' hs => call_nextId hs) h

theorem Inv.sysWait4 (hw : Inv w) (ht : (w.pc t).exiting = none) {requested : Int} {options : BitVec 64} :
    Inv (w.sysWait4 t requested options) := by
  unfold World.sysWait4
  split
  · exact hw
  split
  · exact hw
  split
  · exact hw
  · rename_i parent hcur
    split
    · exact hw
    · exact hw.setPc_plain ht rfl rfl fun _ => by simp [hcur]

theorem Inv.enter (hw : Inv w) (hpc : w.pc t = .user) {e : Event m} (h : w.enter t e = some w') : Inv w' := by
  have ht : (w.pc t).exiting = none := by
    rw [hpc]
    rfl
  cases e with
  | fork space tid events => exact hw.allocProcess ht h
  | wait4 requested options =>
    cases h
    exact hw.sysWait4 ht
  | exit code => exact hw.exitCurrent ht h
  | _ => cases h

theorem Inv.kernel (hw : Inv w) {k : Call m Unit} (h : w.kernel c k = some w') : Inv w' := by
  unfold World.kernel at h
  split at h
  · cases h
  · exact hw.map_sched (fun s' hs => call_nextId hs) h

/-- **One step of any CPU keeps the invariant.** -/
theorem Inv.step (hw : Inv w) {e : Event m} (h : w.step c e = some w') : Inv w' := by
  cases e with
  | kernel k => exact hw.kernel h
  | advance => exact hw.advance h
  | clock =>
    cases h
    exact hw.setSched (Nat.le_refl _)
  | go fault =>
    simp only [World.step] at h
    split at h
    · exact hw.go h
    · cases h
  | fork space tid events =>
    simp only [World.step] at h
    split at h
    · split at h
      case h_1 hpc => exact hw.enter hpc h
      case h_2 => cases h
    · cases h
  | wait4 requested options =>
    simp only [World.step] at h
    split at h
    · split at h
      case h_1 hpc => exact hw.enter hpc h
      case h_2 => cases h
    · cases h
  | exit code =>
    simp only [World.step] at h
    split at h
    · split at h
      case h_1 hpc => exact hw.enter hpc h
      case h_2 => cases h
    · cases h

end Steps

theorem Inv.run {w w' : World n m} (hw : Inv w) {es : List (Fin n × Event m)} (h : w.run es = some w') : Inv w' := by
  induction es generalizing w with
  | nil =>
    cases h
    exact hw
  | cons e es ih =>
    obtain ⟨c, e⟩ := e
    simp only [World.run] at h
    cases hs : w.step c e with
    | none => simp [hs] at h
    | some w₁ =>
      simp only [hs] at h
      exact ih (hw.step hs) h

theorem inv_boot (space : Space) (bootRoot : Nat) (events : Fin m) :
    Inv (World.boot space bootRoot events : World n m) := by
  have hget : ∀ {o p}, (World.boot space bootRoot events : World n m).heap o = some p →
      o = 0 ∧ p = ⟨⟨1, 0, some space, 0, false, events, 0⟩, [.table]⟩ := by
    intro o p hp
    simp only [World.boot] at hp
    split at hp
    case isTrue ho => exact ⟨ho, (Option.some.inj hp).symm⟩
    case isFalse => cases hp
  constructor
  · intro o p hp _
    obtain ⟨-, rfl⟩ := hget hp
    simp
  · intro t o ht
    cases ht
  · intro o p hp hz
    obtain ⟨-, rfl⟩ := hget hp
    cases hz
  · intro t o ho
    cases ho
  · intro t child childPid p hpc
    cases hpc
  · intro o p hp
    obtain ⟨rfl, rfl⟩ := hget hp
    exact ⟨Nat.lt_succ_self 0, Nat.le_refl 1⟩
  · intro o o' p p' hp hp' _
    rw [(hget hp).1, (hget hp').1]
  · intro pid o ho
    simp only [World.boot] at ho ⊢
    split at ho
    case isTrue hpid =>
      cases ho
      exact ⟨_, if_pos rfl, hpid.symm⟩
    case isFalse => cases ho
  · intro f
    rfl
  · intro id hid
    simp only [World.boot] at hid ⊢
    split at hid
    case isTrue h1 =>
      rw [h1]
      exact Nat.lt_succ_self 1
    case isFalse => exact absurd rfl hid
  · intro t ht
    exact absurd rfl ht
  · intro o ho
    obtain rfl : o = 0 := Nat.lt_one_iff.mp ho
    exact ⟨⟨⟨1, 0, some space, 0, false, events, 0⟩, [.table]⟩, by simp [World.boot]⟩

end Koros.Proc
