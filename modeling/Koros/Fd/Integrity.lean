import Koros.Fd.Calls

/-!
# The descriptor tables keep their integrity

What a call does to the table of its caller is collected in `Edits`: the table stays well formed, no descriptor but the
target of the call changes, and a descriptor that is allotted is the least free one. `call_cases` says it of every call.

**`descriptor_integrity`** carries it over the runs of any number of processes.
-/
set_option autoImplicit false

namespace Koros.Fd

open Koros.Lib

/-! ## One table -/

/-- The descriptor whose entry a call may change: the one it returns, closes or is told to replace. -/
def Call.target : Call → Except Int Nat → Option Nat
  | .openat _, result | .socket _ _, result | .dup _, result => result.toOption
  | .fcntl _ command _, result => if Table.isDupFd command then result.toOption else none
  | .dup2 _ newfd, _ => some newfd
  | .close fd, _ => some fd
  | .clone, _ | .exit, _ => none

/-- A descriptor that a call makes was free, and it is the least one from 3, or from the requested minimum, on. -/
def Call.Allots (t : Table) : Call → Except Int Nat → Prop
  | .openat _, .ok fd | .socket _ _, .ok fd | .dup _, .ok fd => t.LeastUnused 3 fd
  | .fcntl _ command argument, .ok fd => Table.isDupFd command = true → t.LeastUnused (max argument 3) fd
  | _, _ => True

/-- What a call makes of the table of its caller. -/
structure Edits (t : Table) (c : Call) (result : Except Int Nat) (t' : Table) : Prop where
  wellFormed : t.WellFormed → t'.WellFormed
  other : ∀ d, c.target result ≠ some d → t'.entry d = t.entry d
  allots : c.Allots t result

theorem edits_nothing {t : Table} {c : Call} {result : Except Int Nat} (h : c.Allots t result) : Edits t c result t :=
  ⟨id, fun _ _ => rfl, h⟩

/-- A new entry at the descriptor that the call returns. -/
theorem edits_install {t : Table} {c : Call} {fd : Nat} (object : Object) (hfd : t.used fd = false)
    (htarget : c.target (.ok fd) = some fd) (h : c.Allots t (.ok fd)) : Edits t c (.ok fd) (t.install fd object) := by
  refine ⟨fun ht => ht.install hfd object, fun d hd => Table.entry_install object ?_, h⟩
  rintro rfl
  exact hd htarget

theorem edits_dup (t : Table) (fd : Nat) : Edits t (.dup fd) (t.dup fd).1 (t.dup fd).2 := by
  unfold Table.dup
  split
  · exact edits_nothing trivial
  · exact edits_install _ t.nextFd_spec.2.1 rfl t.nextFd_spec

theorem edits_dup2 (t : Table) (fd newfd : Nat) : Edits t (.dup2 fd newfd) (t.dup2 fd newfd).1 (t.dup2 fd newfd).2 := by
  refine ⟨fun h => h.dup2 fd newfd, fun d hd => ?_, trivial⟩
  have hne : d ≠ newfd := fun he => hd (congrArg some he.symm)
  unfold Table.dup2
  split
  · rfl
  split
  · rfl
  · rw [Table.entry_install _ hne, Table.entry_remove hne]

theorem edits_fcntl (t : Table) (fd command argument : Nat) :
    Edits t (.fcntl fd command argument) (t.fcntl fd command argument).1 (t.fcntl fd command argument).2 := by
  unfold Table.fcntl
  split
  · exact edits_nothing trivial
  split
  · next hdup =>
    split
    · exact edits_nothing trivial
    · next hfd =>
      have hleast := Table.least_of_below hfd
      exact edits_install _ hleast.2.1 (by simp [Call.target, hdup, Except.toOption]) fun _ => hleast
  · next hdup =>
    split
    · exact edits_nothing fun h => absurd h hdup
    · exact edits_nothing trivial

theorem edits_close {t : Table} (fd : Nat) (result : Except Int Nat) : Edits t (.close fd) result (t.close fd).2 := by
  refine ⟨fun h => h.close fd, fun d hd => Table.entry_close ?_, ?_⟩
  · exact fun he => hd (congrArg some he.symm)
  · cases result <;> trivial

/-! ## One call -/

section Calls

variable {A : SocketApi} {w w' : World A} {pid : Nat} {p : Process}

/-- The process table after a call that edits the table of its caller. -/
def EditsWorld (w : World A) (pid : Nat) (p : Process) (c : Call) (r : Except Int Nat × World A) : Prop :=
  ∃ t, Edits p.table c r.1 t ∧ r.2.process = Function.update w.process pid (some { p with table := t }) ∧
    r.2.nextPid = w.nextPid

theorem update_self_of {f : Nat → Option Process} (h : f pid = some p) :
    f = Function.update f pid (some { p with table := p.table }) := by
  rw [← h, Function.update_eq_self]

theorem sysSocket_edits (hp : w.process pid = some p) (domain type : Nat) :
    EditsWorld w pid p (.socket domain type) (w.sysSocket pid p domain type) := by
  unfold World.sysSocket
  split
  · exact ⟨p.table, edits_nothing trivial, update_self_of hp, rfl⟩
  obtain ⟨hproc, hnext⟩ := w.netSocket_process (type % 256)
  split
  · next hs =>
    rw [hs] at hproc hnext
    exact ⟨p.table, edits_nothing trivial, hproc.trans (update_self_of hp), hnext⟩
  · next id w₁ hs =>
    rw [hs] at hproc hnext
    have hfree := p.table.nextFd_spec
    refine ⟨_, edits_install (.socket id (domain == 10)) hfree.2.1 rfl hfree, ?_, hnext⟩
    show Function.update w₁.process pid _ = _
    rw [show w₁.process = w.process from hproc]

theorem sysClose_edits (fd : Nat) : EditsWorld w pid p (.close fd) (w.sysClose pid p fd) := by
  have he := fun result => edits_close (t := p.table) fd result
  unfold World.sysClose
  split
  · next hc =>
    rw [hc] at he
    exact ⟨_, he _, rfl, rfl⟩
  · next hc =>
    rw [hc] at he
    exact ⟨_, he _, rfl, rfl⟩
  · next id t hc =>
    rw [hc] at he
    obtain ⟨hproc, hnext⟩ := w.netClose_process id
    refine ⟨t, he _, ?_, hnext⟩
    simp only [World.setTable, World.set]
    rw [hproc]

/-- **What a call does**: it edits the table of its caller, makes a process with the same table, or ends the caller. -/
theorem call_cases (hp : w.process pid = some p) (c : Call) :
    EditsWorld w pid p c (w.call pid p c) ∨
    (c = .clone ∧ (w.call pid p c).2.process = Function.update w.process (w.nextPid + 1) (some ⟨p.table, true⟩) ∧
      (w.call pid p c).2.nextPid = w.nextPid + 1) ∨
    (c = .exit ∧ (w.call pid p c).2 = w.exitCurrent pid p) := by
  cases c with
  | openat opened =>
    left
    cases opened with
    | error e => exact ⟨p.table, edits_nothing trivial, update_self_of hp, rfl⟩
    | ok => exact ⟨_, edits_install _ p.table.nextFd_spec.2.1 rfl p.table.nextFd_spec, rfl, rfl⟩
  | socket domain type => exact .inl (sysSocket_edits hp domain type)
  | dup fd => exact .inl ⟨_, edits_dup p.table fd, rfl, rfl⟩
  | dup2 fd newfd => exact .inl ⟨_, edits_dup2 p.table fd newfd, rfl, rfl⟩
  | fcntl fd command argument => exact .inl ⟨_, edits_fcntl p.table fd command argument, rfl, rfl⟩
  | close fd => exact .inl (sysClose_edits fd)
  | clone => exact .inr (.inl ⟨rfl, rfl, rfl⟩)
  | exit => exact .inr (.inr ⟨rfl, rfl⟩)

/-! ## Every run -/

/-- Process numbers come from the counter, and running processes have well-formed tables. -/
structure World.Integral (w : World A) : Prop where
  numbered : ∀ q, w.nextPid < q → w.process q = none
  tables : ∀ q p, w.process q = some p → p.running = true → p.table.WellFormed

theorem boot_integral (network : Bool) : (World.boot A network).Integral := by
  refine ⟨fun q hq => if_neg ?_, fun q p hp _ => ?_⟩
  · exact Nat.ne_of_gt hq
  · simp only [World.boot] at hp
    split at hp
    · cases hp
      exact Table.wellFormed_empty
    · cases hp

/-- A call by a running process changes the entries of no descriptor but its target, in no process. -/
def World.OthersKept (w : World A) (pid : Nat) (c : Call) (r : Except Int Nat × World A) : Prop :=
  ∀ q p d, w.process q = some p → ¬ (q = pid ∧ c.target r.1 = some d) →
    ∃ p', r.2.process q = some p' ∧ p'.table.entry d = p.table.entry d

theorem World.Integral.lt_of_process (h : w.Integral) {q : Nat} {p : Process} (hp : w.process q = some p) :
    q ≠ w.nextPid + 1 := by
  rintro rfl
  rw [h.numbered _ (Nat.lt_succ_self _)] at hp
  cases hp

theorem call_integral (h : w.Integral) (hp : w.process pid = some p) (hr : p.running = true) (c : Call) :
    (w.call pid p c).2.Integral := by
  have hpid : pid ≤ w.nextPid := by
    by_contra hlt
    rw [h.numbered pid (Nat.not_le.1 hlt)] at hp
    cases hp
  rcases call_cases hp c with ⟨t, hedits, hproc, hnext⟩ | ⟨rfl, hproc, hnext⟩ | ⟨rfl, he⟩
  · refine ⟨fun q hq => ?_, fun q p' hq hr' => ?_⟩
    · rw [hnext] at hq
      rw [hproc, Function.update_of_ne (by omega)]
      exact h.numbered q hq
    · rw [hproc] at hq
      by_cases hne : q = pid
      · subst hne
        rw [Function.update_self] at hq
        cases hq
        exact hedits.wellFormed (h.tables q p hp hr)
      · rw [Function.update_of_ne hne] at hq
        exact h.tables q p' hq hr'
  · refine ⟨fun q hq => ?_, fun q p' hq hr' => ?_⟩
    · rw [hnext] at hq
      rw [hproc, Function.update_of_ne (by omega)]
      exact h.numbered q (by omega)
    · rw [hproc] at hq
      by_cases hne : q = w.nextPid + 1
      · subst hne
        rw [Function.update_self] at hq
        cases hq
        exact h.tables pid p hp hr
      · rw [Function.update_of_ne hne] at hq
        exact h.tables q p' hq hr'
  · rw [he]
    refine ⟨fun q hq => ?_, fun q p' hq hr' => ?_⟩
    · have hlt : w.nextPid < q := hq
      exact (Function.update_of_ne (by omega) ..).trans (h.numbered q hlt)
    · by_cases hne : q = pid
      · subst hne
        rw [World.exitCurrent, World.set_self] at hq
        cases hq
        cases hr'
      · rw [World.exitCurrent, World.set_of_ne _ _ hne] at hq
        exact h.tables q p' hq hr'

theorem call_othersKept (h : w.Integral) (hp : w.process pid = some p) {c : Call} (hc : c ≠ .exit) :
    w.OthersKept pid c (w.call pid p c) ∧ c.Allots p.table (w.call pid p c).1 := by
  rcases call_cases hp c with ⟨t, hedits, hproc, -⟩ | ⟨rfl, hproc, -⟩ | ⟨rfl, -⟩
  · refine ⟨fun q p' d hq hd => ?_, hedits.allots⟩
    by_cases hne : q = pid
    · subst hne
      obtain rfl : p = p' := Option.some.inj (hp.symm.trans hq)
      refine ⟨_, by rw [hproc, Function.update_self], hedits.other d fun he => hd ⟨rfl, he⟩⟩
    · exact ⟨p', by rw [hproc, Function.update_of_ne hne, hq], rfl⟩
  · refine ⟨fun q p' d hq _ => ⟨p', ?_, rfl⟩, trivial⟩
    rw [hproc, Function.update_of_ne (h.lt_of_process hq), hq]
  · exact absurd rfl hc

/-- **The descriptor tables keep their integrity**: in every run of any number of processes, the files, streams and
sockets of each running process have no descriptor in common and the IPv6 marks stand at sockets; a descriptor that a
call makes was free and is the least free one from 3, or from the requested minimum, on; and the entry of no other
descriptor changes, in no process, but for the one that `dup2` or `close` is told. -/
theorem descriptor_integrity (A : SocketApi) (network : Bool) (events : List (Nat × Call)) :
    Visits World.step (fun w => ∀ q p, w.process q = some p → p.running = true → p.table.WellFormed)
      (World.boot A network) events ∧
    Takes World.step
      (fun w e w' => ∀ p, w.process e.1 = some p → e.2 ≠ .exit →
        w' = (w.call e.1 p e.2).2 ∧ w.OthersKept e.1 e.2 (w.call e.1 p e.2) ∧ e.2.Allots p.table (w.call e.1 p e.2).1)
      (World.boot A network) events := by
  have hall : Meets World.step (fun _ _ => True) (World.boot A network) events := Meets.of_forall fun _ _ => trivial
  have hstep : ∀ (w : World A) e w', w.Integral → w.step e = some w' → w'.Integral := by
    intro w e w' hw h
    obtain ⟨p, hp, hr, rfl⟩ := World.step_cases h
    exact call_integral hw hp hr e.2
  constructor
  · have hinv : Visits World.step World.Integral (World.boot A network) events :=
      Visits.of_step (fun w e w' hw _ h => hstep w e w' hw h) (boot_integral network) hall
    exact hinv.imp fun w hw => hw.tables
  · refine Takes.of_step (fun w e w' hw _ h => ⟨hstep w e w' hw h, fun p hp hc => ?_⟩) (boot_integral network) hall
    obtain ⟨p', hp', -, rfl⟩ := World.step_cases h
    obtain rfl : p = p' := Option.some.inj (hp.symm.trans hp')
    exact ⟨rfl, call_othersKept hw hp hc⟩

end Calls

end Koros.Fd
