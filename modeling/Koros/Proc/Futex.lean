import Koros.Lib.Runs
import Mathlib.Logic.Function.Basic
import Mathlib.Algebra.Ring.Nat

/-!
# Futexes

`sys_futex`, `futex_queue` and `wake_futex` of `korix/src/syscall/mod.rs` among the calls that matter to them: `sys_clone`
and `exit_current`. The queue of a futex is found by the pid of the *calling* process and the address, and `sys_clone`
always makes a new process with one task, whatever its flags. A blocked task leaves its wait queue only when `wake_one`
takes it out (`Koros.Sched`), so that nobody is left who could wake it.

- `step_alone`: every step keeps the invariant that a queue holds nobody but its own process, asleep;
- **`futex_never_wakes`**: what follows for every run.
-/
set_option autoImplicit false

namespace Koros.Proc.Futex

open Koros.Lib

/-- A queue is found by a pid and an address. -/
abbrev FutexKey := Nat × Nat

inductive Status where
  | running
  /-- In `wait_if` on the queue of a key. -/
  | blocked (key : FutexKey)
  | zombie
deriving DecidableEq, Repr

structure Process where
  status : Status
  clearChildTid : Nat
  /-- The words of its memory; `none` is an address that is not mapped. -/
  word : Nat → Option Nat
  /-- What its last call of `futex` returned. -/
  result : Option Int

structure World where
  process : Nat → Option Process
  nextPid : Nat
  /-- The tasks in each wait queue, by the pid of their process. -/
  queues : FutexKey → List Nat
  /-- `kor_sched::is_ready`. -/
  ready : Bool

def FUTEX_WAIT : Nat := 0
def FUTEX_WAKE : Nat := 1

namespace World

def set (w : World) (pid : Nat) (p : Process) : World := { w with process := Function.update w.process pid (some p) }

theorem set_process_self (w : World) (pid : Nat) (p : Process) : (w.set pid p).process pid = some p :=
  Function.update_self ..

theorem set_process_of_ne {w : World} {pid x : Nat} (h : x ≠ pid) (p : Process) : (w.set pid p).process x = w.process x :=
  Function.update_of_ne h ..

/-- `make_ready` on the task of a process: its `wait_if` returns `true`. -/
def makeReady (w : World) (pid : Nat) : World :=
  match w.process pid with
  | some p => w.set pid { p with status := .running, result := some 0 }
  | none => w

/-- `wake_one` in a loop, at most `count` times. -/
def wake (key : FutexKey) : (count : Nat) → World → Nat × World
  | 0, w => (0, w)
  | count + 1, w =>
    match w.queues key with
    | [] => (0, w)
    | pid :: rest =>
      let (n, w) := wake key count ({ w with queues := Function.update w.queues key rest }.makeReady pid)
      (n + 1, w)

/-- `sys_futex` by process `pid`. `FUTEX_WAIT` compares and goes to sleep under the lock of the queue. -/
def futex (w : World) (pid address operation value : Nat) : Option World :=
  match w.process pid with
  | none => none
  | some p =>
    if p.status ≠ .running then none
    else
      let operation := operation % 128
      if operation = FUTEX_WAIT then
        match p.word address with
        | none => some (w.set pid { p with result := some (-14) })
        | some word =>
          if !w.ready then some (w.set pid { p with result := some (-11) })
          else if word = value % 2 ^ 32 then
            some { w.set pid { p with status := .blocked (pid, address), result := none } with
              queues := Function.update w.queues (pid, address) (w.queues (pid, address) ++ [pid]) }
          else some (w.set pid { p with result := some (-11) })
      else if operation = FUTEX_WAKE then
        let (n, w) := wake (pid, address) value w
        match w.process pid with
        | none => none
        | some p => some (w.set pid { p with result := some n })
      else some (w.set pid { p with result := some (-38) })

/-- `sys_clone`: the child's memory is a copy, and it has its own pid. -/
def clone (w : World) (pid clearChildTid : Nat) : Option World :=
  match w.process pid with
  | none => none
  | some p =>
    if p.status ≠ .running then none
    else
      some { w.set (w.nextPid + 1) { p with clearChildTid := clearChildTid, result := none } with nextPid := w.nextPid + 1 }

/-- A running process stores a word. -/
def store (w : World) (pid address value : Nat) : Option World :=
  match w.process pid with
  | none => none
  | some p =>
    if p.status ≠ .running then none
    else some (w.set pid { p with word := Function.update p.word address (some (value % 2 ^ 32)) })

/-- `exit_current`: clear the word of `set_child_tid` and wake one waiter there. -/
def exit (w : World) (pid : Nat) : Option World :=
  match w.process pid with
  | none => none
  | some p =>
    if p.status ≠ .running then none
    else
      let w := w.set pid { p with status := .zombie }
      if p.clearChildTid = 0 then some w
      else some (wake (pid, p.clearChildTid) 1 w).2

/-- `wait4` removes a zombie. -/
def reap (w : World) (pid : Nat) : Option World :=
  match w.process pid with
  | none => none
  | some p => if p.status = .zombie then some { w with process := Function.update w.process pid none } else none

end World

inductive Event where
  | futex (pid address operation value : Nat)
  | clone (pid clearChildTid : Nat)
  | store (pid address value : Nat)
  | exit (pid : Nat)
  | reap (pid : Nat)
deriving DecidableEq, Repr

namespace World

def step (w : World) : Event → Option World
  | .futex pid address operation value => w.futex pid address operation value
  | .clone pid tid => w.clone pid tid
  | .store pid address value => w.store pid address value
  | .exit pid => w.exit pid
  | .reap pid => w.reap pid

/-- The first process, with any memory. -/
def boot (word : Nat → Option Nat) : World where
  process pid := if pid = 1 then some ⟨.running, 0, word, none⟩ else none
  nextPid := 1
  queues _ := []
  ready := true

/-! ## Nobody is left to wake a waiter -/

/-- A queue holds nobody but the process it is named after, which is asleep on it; pids are not used again. -/
structure Alone (w : World) : Prop where
  queued : ∀ key, ∀ pid ∈ w.queues key, pid = key.1 ∧ ∃ p, w.process pid = some p ∧ p.status = .blocked key
  bounded : ∀ pid p, w.process pid = some p → pid ≤ w.nextPid

variable {w w' : World} {pid : Nat} {p : Process}

/-- The queues of a process that is not asleep are empty. -/
theorem Alone.queue_nil (h : w.Alone) (hp : w.process pid = some p) (hs : ∀ key, p.status ≠ .blocked key) (address : Nat) :
    w.queues (pid, address) = [] := by
  refine List.eq_nil_iff_forall_not_mem.2 fun q hq => ?_
  obtain ⟨rfl, p', hp', hs'⟩ := h.queued _ q hq
  rw [hp] at hp'
  cases hp'
  exact hs _ hs'

theorem wake_nil {key : FutexKey} (h : w.queues key = []) : ∀ count, wake key count w = (0, w)
  | 0 => rfl
  | count + 1 => by
    rw [wake, h]

/-- A process that is not asleep changes, and does not go to sleep. -/
theorem Alone.set (h : w.Alone) (hp : w.process pid = some p) (hs : ∀ key, p.status ≠ .blocked key) (q : Process) :
    (w.set pid q).Alone := by
  refine ⟨fun key x hx => ?_, fun x p' hp' => ?_⟩
  · obtain ⟨heq, p', hp', hs'⟩ := h.queued key x hx
    have hne : x ≠ pid := by
      rintro rfl
      rw [hp] at hp'
      cases hp'
      exact hs key hs'
    exact ⟨heq, p', by rw [set_process_of_ne hne, hp'], hs'⟩
  · by_cases hx : x = pid
    · subst hx
      exact h.bounded x p hp
    · rw [set_process_of_ne hx] at hp'
      exact h.bounded x p' hp'

/-- Whoever is asleep stays asleep. -/
def Sleeps (w w' : World) : Prop :=
  ∀ pid p key, w.process pid = some p → p.status = .blocked key → ∃ p', w'.process pid = some p' ∧ p'.status = .blocked key

theorem Sleeps.of_others (h : ∀ x, x ≠ pid → w'.process x = w.process x) (hp : w.process pid = some p)
    (hs : ∀ key, p.status ≠ .blocked key) : Sleeps w w' := by
  intro x p' key hx hs'
  have hne : x ≠ pid := by
    rintro rfl
    rw [hp] at hx
    cases hx
    exact hs key hs'
  exact ⟨p', by rw [h x hne, hx], hs'⟩

theorem awake (hs : ¬p.status ≠ .running) : ∀ key, p.status ≠ .blocked key := by
  intro key heq
  rw [heq] at hs
  exact hs nofun

/-- `FUTEX_WAIT` on a word with the expected value: the process joins its own queue, which was empty. -/
theorem Alone.block (h : w.Alone) (hp : w.process pid = some p) (hs : ∀ key, p.status ≠ .blocked key) (address : Nat) :
    World.Alone { w.set pid { p with status := .blocked (pid, address), result := none } with
      queues := Function.update w.queues (pid, address) (w.queues (pid, address) ++ [pid]) } := by
  have hset := h.set hp hs { p with status := .blocked (pid, address), result := none }
  refine ⟨fun key x hx => ?_, hset.bounded⟩
  replace hx : x ∈ Function.update w.queues (pid, address) (w.queues (pid, address) ++ [pid]) key := hx
  by_cases hkey : key = (pid, address)
  · subst hkey
    rw [Function.update_self, h.queue_nil hp hs, List.nil_append, List.mem_singleton] at hx
    subst hx
    exact ⟨rfl, _, set_process_self .., rfl⟩
  · rw [Function.update_of_ne hkey] at hx
    exact hset.queued key x hx

/-- What a call of `futex` returns at once. -/
def Reports (w' : World) : Event → Prop
  | .futex pid _ operation _ => ∀ p, w'.process pid = some p →
      (operation % 128 = FUTEX_WAKE → p.result = some 0) ∧ (operation % 128 = FUTEX_WAIT → p.result ≠ some 0)
  | _ => True

theorem futex_alone {address operation value : Nat} (h : w.Alone) (hs : w.futex pid address operation value = some w') :
    w'.Alone ∧ Sleeps w w' ∧ w'.Reports (.futex pid address operation value) := by
  unfold futex at hs
  split at hs
  · cases hs
  · rename_i p hp
    split at hs
    · cases hs
    · rename_i hrun
      have hawake := awake hrun
      have hself : ∀ q : Process, Sleeps w (w.set pid q) := fun q =>
        .of_others (fun x hx => set_process_of_ne hx q) hp hawake
      simp only at hs
      split at hs
      · -- FUTEX_WAIT
        rename_i hop
        have hnot : ∀ {w' : World} {r : Option Int}, (∀ q, w'.process pid = some q → q.result = r) → r ≠ some 0 →
            w'.Reports (.futex pid address operation value) := fun hr hne q hq =>
          ⟨fun hwake => absurd (hop.symm.trans hwake) (by decide), fun _ => by rw [hr q hq]; exact hne⟩
        have hres : ∀ (q q' : Process), (w.set pid q).process pid = some q' → q'.result = q.result := by
          intro q q' hq'
          rw [set_process_self] at hq'
          cases hq'
          rfl
        split at hs
        · cases hs
          exact ⟨h.set hp hawake _, hself _, hnot (hres _) (by simp)⟩
        · split at hs
          · cases hs
            exact ⟨h.set hp hawake _, hself _, hnot (hres _) (by simp)⟩
          · split at hs
            · cases hs
              refine ⟨h.block hp hawake address, hself _, hnot (r := none) (fun q hq => ?_) nofun⟩
              exact hres _ q hq
            · cases hs
              exact ⟨h.set hp hawake _, hself _, hnot (hres _) (by simp)⟩
      · split at hs
        · -- FUTEX_WAKE: the queue is the caller's own, and the caller is awake
          rename_i hwait hop
          rw [wake_nil (h.queue_nil hp hawake address)] at hs
          simp only [hp] at hs
          cases hs
          refine ⟨h.set hp hawake _, hself _, fun q hq => ?_⟩
          rw [set_process_self] at hq
          cases hq
          exact ⟨fun _ => rfl, fun hw => absurd hw hwait⟩
        · rename_i hwait hwake
          cases hs
          refine ⟨h.set hp hawake _, hself _, fun q hq => ?_⟩
          exact ⟨fun hw => absurd hw hwake, fun hw => absurd hw hwait⟩

theorem clone_alone {tid : Nat} (h : w.Alone) (hs : w.clone pid tid = some w') : w'.Alone ∧ Sleeps w w' := by
  unfold clone at hs
  split at hs
  · cases hs
  · rename_i p hp
    split at hs
    · cases hs
    · cases hs
      -- the child's pid is fresh
      have hne : ∀ {x p'}, w.process x = some p' → x ≠ w.nextPid + 1 := fun hx heq => by
        have := h.bounded _ _ hx
        omega
      refine ⟨⟨fun key x hx => ?_, fun x p' hx => ?_⟩, fun x p' key hx hs => ?_⟩
      · obtain ⟨heq, p', hp', hs'⟩ := h.queued key x hx
        exact ⟨heq, p', (set_process_of_ne (hne hp') _).trans hp', hs'⟩
      · by_cases hxn : x = w.nextPid + 1
        · exact Nat.le_of_eq hxn
        · exact Nat.le_succ_of_le (h.bounded x p' ((set_process_of_ne hxn _).symm.trans hx))
      · exact ⟨p', (set_process_of_ne (hne hx) _).trans hx, hs⟩

theorem store_alone {address value : Nat} (h : w.Alone) (hs : w.store pid address value = some w') :
    w'.Alone ∧ Sleeps w w' := by
  unfold store at hs
  split at hs
  · cases hs
  · rename_i p hp
    split at hs
    · cases hs
    · rename_i hrun
      cases hs
      exact ⟨h.set hp (awake hrun) _, .of_others (fun x hx => set_process_of_ne hx _) hp (awake hrun)⟩

/-- The futex that an exiting process wakes is one of its own. -/
theorem exit_alone (h : w.Alone) (hs : w.exit pid = some w') : w'.Alone ∧ Sleeps w w' := by
  unfold exit at hs
  split at hs
  · cases hs
  · rename_i p hp
    split at hs
    · cases hs
    · rename_i hrun
      have halone := h.set hp (awake hrun) { p with status := .zombie }
      have hsleeps : Sleeps w (w.set pid { p with status := .zombie }) :=
        .of_others (fun x hx => set_process_of_ne hx _) hp (awake hrun)
      simp only at hs
      split at hs
      · cases hs
        exact ⟨halone, hsleeps⟩
      · rw [wake_nil (halone.queue_nil (set_process_self ..) nofun _)] at hs
        cases hs
        exact ⟨halone, hsleeps⟩

theorem reap_alone (h : w.Alone) (hs : w.reap pid = some w') : w'.Alone ∧ Sleeps w w' := by
  unfold reap at hs
  split at hs
  · cases hs
  · rename_i p hp
    split at hs
    · rename_i hzombie
      cases hs
      have hkeep : ∀ {x p' key}, w.process x = some p' → p'.status = .blocked key →
          Function.update w.process pid none x = some p' := by
        intro x p' key hx hb
        have hne : x ≠ pid := by
          rintro rfl
          rw [hp] at hx
          cases hx
          rw [hzombie] at hb
          cases hb
        rw [Function.update_of_ne hne, hx]
      refine ⟨⟨fun key x hx => ?_, fun x p' hx => ?_⟩, fun x p' key hx hb => ⟨p', hkeep hx hb, hb⟩⟩
      · obtain ⟨heq, p', hp', hb⟩ := h.queued key x hx
        exact ⟨heq, p', hkeep hp' hb, hb⟩
      · by_cases hxp : x = pid
        · subst hxp
          simp at hx
        · exact h.bounded x p' ((Function.update_of_ne hxp ..).symm.trans hx)
    · cases hs

/-- **Every step keeps the invariant**, lets the sleepers sleep, and no call of `futex` reports a wake-up. -/
theorem step_alone {e : Event} (h : w.Alone) (hs : w.step e = some w') : w'.Alone ∧ Sleeps w w' ∧ w'.Reports e := by
  cases e with
  | futex pid address operation value => exact futex_alone h hs
  | clone pid tid => exact ⟨(clone_alone h hs).1, (clone_alone h hs).2, trivial⟩
  | store pid address value => exact ⟨(store_alone h hs).1, (store_alone h hs).2, trivial⟩
  | exit pid => exact ⟨(exit_alone h hs).1, (exit_alone h hs).2, trivial⟩
  | reap pid => exact ⟨(reap_alone h hs).1, (reap_alone h hs).2, trivial⟩

theorem boot_alone (word : Nat → Option Nat) : (boot word).Alone := by
  refine ⟨nofun, fun pid p hp => ?_⟩
  simp only [boot] at hp ⊢
  split at hp
  · omega
  · cases hp

/-- In every run: a process that blocks in `FUTEX_WAIT` stays blocked for ever, `FUTEX_WAKE` returns 0, and `FUTEX_WAIT` never
returns 0. -/
theorem futex_never_wakes (word : Nat → Option Nat) (es : List Event) :
    Takes step (fun w e w' => Sleeps w w' ∧ w'.Reports e) (boot word) es := by
  have hall : Meets step (fun _ _ => True) (boot word) es := Meets.of_forall fun _ _ => trivial
  exact Takes.of_step (fun _ _ _ h _ hs => step_alone h hs) (boot_alone word) hall

-- A parent that waits for its child to store a word and to wake it sleeps for ever: the child wakes a queue of its own.
example : ((runs step (boot fun _ => some 0) [.clone 1 8, .futex 1 8 128 0, .store 2 8 1, .futex 2 8 129 1, .exit 2]).bind
    fun w => w.process 1).map Process.status = some (.blocked (1, 8)) := by decide

end World

end Koros.Proc.Futex
