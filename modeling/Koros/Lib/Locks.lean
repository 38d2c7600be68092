import Mathlib.Logic.Relation
import Mathlib.Logic.Function.Basic
import Mathlib.Data.List.Basic

/-!
# Programs over mutexes

A task runs programs that lock and unlock mutexes; a mutex carries the data it protects, so that only the holder sees
or changes it. Reads of anything else are answered arbitrarily (`Prog.choose`). The guards a task holds and the calls
it is inside of form a stack, because both are scoped.

`Discipline.Ok` is a per-task rule: a program takes a lock only where the discipline lets it, opens and closes its
scopes in order and writes protected data only where no other task relies on it. The rule survives every step of every
task (`Discipline.inv_step`), and a rank that grows along each wait excludes every cycle of waits
(`not_transGen_waitsFor`).
-/

set_option autoImplicit false

namespace Koros.Locks

variable {L : Type} {V : L → Type} {E α β : Type}

/-! ## Programs -/

/-- A program of one task. `lock` hands over the data the mutex protects and `unlock` stores it back; `enter` and
`leave` delimit a call worth naming; `choose` reads a value the model leaves open. -/
inductive Prog (V : L → Type) (E α : Type) : Type where
  | pure (a : α)
  | lock (l : L) (k : V l → Prog V E α)
  | unlock (l : L) (v : V l) (k : Prog V E α)
  | enter (e : E) (k : Prog V E α)
  | leave (k : Prog V E α)
  | choose (k : Nat → Prog V E α)

namespace Prog

def bind : Prog V E α → (α → Prog V E β) → Prog V E β
  | .pure a, f => f a
  | .lock l k, f => .lock l fun v => (k v).bind f
  | .unlock l v k, f => .unlock l v (k.bind f)
  | .enter e k, f => .enter e (k.bind f)
  | .leave k, f => .leave (k.bind f)
  | .choose k, f => .choose fun n => (k n).bind f

instance : Monad (Prog V E) where
  pure := .pure
  bind := bind

/-- The lock a program asks for next. -/
def request : Prog V E α → Option L
  | .lock l _ => some l
  | _ => none

end Prog

/-! ## Fallible programs with scoped guards -/

section Scopes

variable {V : L → Type} {E α : Type}

/-- A value the model leaves open. -/
def anyNat : OptionT (Prog V E) Nat := OptionT.mk (.choose fun n => .pure (some n))

/-- A test the model leaves open. -/
def any : OptionT (Prog V E) Bool := OptionT.mk (.choose fun n => .pure (some (n == 1)))

/-- A step that may fail. -/
def fallible : OptionT (Prog V E) Unit := OptionT.mk (.choose fun n => .pure (if n == 0 then some () else none))

/-- A test the model leaves open decides which of two programs runs. -/
def branch (m m' : OptionT (Prog V E) α) : OptionT (Prog V E) α := do
  if ← any then m else m'

/-- A program that may be skipped. -/
def maybe (m : OptionT (Prog V E) Unit) : OptionT (Prog V E) Unit := branch m (pure ())

/-- Run `m` and hand its failure on as a value. -/
def attempt (m : OptionT (Prog V E) α) : OptionT (Prog V E) (Option α) :=
  OptionT.mk (m.run.bind fun r => .pure (some r))

/-- Hold `l` while `body` runs; `body` may replace the protected data. The guard is dropped on a failure too. -/
def withGuard (l : L) (body : V l → OptionT (Prog V E) (α × V l)) : OptionT (Prog V E) α :=
  OptionT.mk (.lock l fun v => (body v).run.bind fun
    | some (a, v') => .unlock l v' (.pure (some a))
    | none => .unlock l v (.pure none))

/-- Hold `l` while `body` runs and leave the protected data as it is. -/
def locking (l : L) (body : V l → OptionT (Prog V E) α) : OptionT (Prog V E) α :=
  withGuard l fun v => do return (← body v, v)

/-- Run `body` inside the call `e`. -/
def calling (e : E) (body : OptionT (Prog V E) α) : OptionT (Prog V E) α :=
  OptionT.mk (.enter e (body.run.bind fun r => .leave (.pure r)))

/-- Run `body` `n` times, up to its first failure. -/
def repeatN (body : OptionT (Prog V E) Unit) : Nat → OptionT (Prog V E) Unit
  | 0 => pure ()
  | n + 1 => do body; repeatN body n

/-- A loop whose number of rounds the model leaves open. -/
def loop (body : OptionT (Prog V E) Unit) : OptionT (Prog V E) Unit := do
  repeatN body (← anyNat)

end Scopes

/-! ## Tasks and their steps -/

/-- What a task has open: a guard with the data it received, or a call. -/
inductive Frame (V : L → Type) (E : Type) : Type where
  | guard (l : L) (v : V l)
  | call (e : E)

/-- The locks whose guards are on a stack. -/
def guards : List (Frame V E) → List L
  | [] => []
  | .guard l _ :: S => l :: guards S
  | .call _ :: S => guards S

@[simp] theorem guards_nil : guards ([] : List (Frame V E)) = [] := rfl

@[simp] theorem guards_guard (l : L) (v : V l) (S : List (Frame V E)) :
    guards (.guard l v :: S) = l :: guards S := rfl

@[simp] theorem guards_call (e : E) (S : List (Frame V E)) : guards (.call e :: S) = guards S := rfl

theorem mem_guards {l : L} {S : List (Frame V E)} : l ∈ guards S ↔ ∃ v, Frame.guard l v ∈ S := by
  induction S with
  | nil => simp
  | cons f S ih =>
    cases f with
    | guard l' v' =>
      simp only [guards_guard, List.mem_cons, ih]
      constructor
      · rintro (rfl | ⟨v, hv⟩)
        · exact ⟨v', .inl rfl⟩
        · exact ⟨v, .inr hv⟩
      · rintro ⟨v, hv | hv⟩
        · cases hv
          exact .inl rfl
        · exact .inr ⟨v, hv⟩
    | call e => simp [ih]

structure Task (V : L → Type) (E : Type) where
  stack : List (Frame V E)
  prog : Prog V E Unit

/-- Any number of tasks over one set of mutexes: the lock word of each mutex, here with the task that set it, and the
data it protects. -/
structure State (V : L → Type) (E : Type) where
  task : Nat → Task V E
  owner : L → Option Nat
  data : (l : L) → V l

/-- What the scheduler lets a task do: start an operation, or go on with the one it runs (with the answer to its next
`choose`). -/
inductive Act (Op : Type) : Type where
  | start (o : Op)
  | go (n : Nat)

namespace State

/-- Task `t` holds a guard of `l`. -/
def Holds (s : State V E) (t : Nat) (l : L) : Prop := l ∈ guards (s.task t).stack

/-- Task `t` asks for `l` next. -/
def Requests (s : State V E) (t : Nat) (l : L) : Prop := (s.task t).prog.request = some l

/-- Task `t` cannot go on before `t'` drops a guard. -/
def WaitsFor (s : State V E) (t t' : Nat) : Prop := ∃ l, s.Requests t l ∧ s.Holds t' l

def setTask (s : State V E) (t : Nat) (c : Task V E) : State V E :=
  { s with task := Function.update s.task t c }

@[simp] theorem setTask_task_self (s : State V E) (t : Nat) (c : Task V E) : (s.setTask t c).task t = c := by
  simp [setTask]

@[simp] theorem setTask_task_ne (s : State V E) {t u : Nat} (c : Task V E) (h : u ≠ t) :
    (s.setTask t c).task u = s.task u := by
  simp [setTask, h]

@[simp] theorem setTask_owner (s : State V E) (t : Nat) (c : Task V E) : (s.setTask t c).owner = s.owner := rfl

@[simp] theorem setTask_data (s : State V E) (t : Nat) (c : Task V E) : (s.setTask t c).data = s.data := rfl

variable {Op : Type} [DecidableEq L]

/-- One step of task `t`. A spin lock is taken only while its lock word is clear. -/
def step (body : Op → Prog V E Unit) (s : State V E) (t : Nat) : Act Op → Option (State V E)
  | .start o =>
    match s.task t with
    | ⟨[], .pure ()⟩ => some (s.setTask t ⟨[], body o⟩)
    | _ => none
  | .go n =>
    match s.task t with
    | ⟨S, .lock l k⟩ =>
      if s.owner l = none then
        some { s.setTask t ⟨.guard l (s.data l) :: S, k (s.data l)⟩ with owner := Function.update s.owner l (some t) }
      else none
    | ⟨.guard l₀ _ :: S, .unlock l v k⟩ =>
      if l₀ = l then
        some { s.setTask t ⟨S, k⟩ with
          owner := Function.update s.owner l none, data := Function.update s.data l v }
      else none
    | ⟨S, .enter e k⟩ => some (s.setTask t ⟨.call e :: S, k⟩)
    | ⟨.call _ :: S, .leave k⟩ => some (s.setTask t ⟨S, k⟩)
    | ⟨S, .choose k⟩ => some (s.setTask t ⟨S, k n⟩)
    | _ => none

/-- A run: which task moves, and how. -/
def run (body : Op → Prog V E Unit) (s : State V E) : List (Nat × Act Op) → Option (State V E)
  | [] => some s
  | (t, a) :: es =>
    match s.step body t a with
    | some s' => s'.run body es
    | none => none

/-- The call task `t` is about to make. -/
def nextCall (s : State V E) (t : Nat) : Option E :=
  match (s.task t).prog with
  | .enter e _ => some e
  | _ => none

end State

/-- What a step can do. -/
inductive Step {Op : Type} [DecidableEq L] (body : Op → Prog V E Unit) (s : State V E) (t : Nat) :
    State V E → Prop where
  | start (o : Op) (ht : s.task t = ⟨[], .pure ()⟩) : Step body s t (s.setTask t ⟨[], body o⟩)
  | lock (S : List (Frame V E)) (l : L) (k : V l → Prog V E Unit) (ht : s.task t = ⟨S, .lock l k⟩)
      (hfree : s.owner l = none) :
      Step body s t { s.setTask t ⟨.guard l (s.data l) :: S, k (s.data l)⟩ with
        owner := Function.update s.owner l (some t) }
  | unlock (S : List (Frame V E)) (l : L) (v₀ v : V l) (k : Prog V E Unit)
      (ht : s.task t = ⟨.guard l v₀ :: S, .unlock l v k⟩) :
      Step body s t { s.setTask t ⟨S, k⟩ with
        owner := Function.update s.owner l none, data := Function.update s.data l v }
  | enter (S : List (Frame V E)) (e : E) (k : Prog V E Unit) (ht : s.task t = ⟨S, .enter e k⟩) :
      Step body s t (s.setTask t ⟨.call e :: S, k⟩)
  | leave (S : List (Frame V E)) (e : E) (k : Prog V E Unit) (ht : s.task t = ⟨.call e :: S, .leave k⟩) :
      Step body s t (s.setTask t ⟨S, k⟩)
  | choose (S : List (Frame V E)) (k : Nat → Prog V E Unit) (n : Nat) (ht : s.task t = ⟨S, .choose k⟩) :
      Step body s t (s.setTask t ⟨S, k n⟩)

theorem step_cases {Op : Type} [DecidableEq L] {body : Op → Prog V E Unit} {s s' : State V E} {t : Nat} {a : Act Op}
    (h : s.step body t a = some s') : Step body s t s' := by
  cases a with
  | start o =>
    simp only [State.step] at h
    split at h
    case h_1 ht =>
      cases h
      exact .start o ht
    case h_2 => cases h
  | go n =>
    simp only [State.step] at h
    split at h
    case h_1 S l k ht =>
      split at h
      case isTrue hfree =>
        cases h
        exact .lock S l k ht hfree
      case isFalse => cases h
    case h_2 l₀ v₀ S l v k ht =>
      split at h
      case isTrue hl =>
        subst hl
        cases h
        exact .unlock S l₀ v₀ v k ht
      case isFalse => cases h
    case h_3 S e k ht =>
      cases h
      exact .enter S e k ht
    case h_4 e S k ht =>
      cases h
      exact .leave S e k ht
    case h_5 S k ht =>
      cases h
      exact .choose S k n ht
    case h_6 => cases h

/-! ## Waits -/

/-- A rank that grows along every wait excludes a task that waits for itself and every cycle of waits. -/
theorem not_transGen_waitsFor {s : State V E} (rank : Nat → Nat)
    (h : ∀ t t', s.WaitsFor t t' → rank t < rank t') (t : Nat) : ¬ Relation.TransGen s.WaitsFor t t := by
  have hlt : ∀ {t'}, Relation.TransGen s.WaitsFor t t' → rank t < rank t' := by
    intro t' htt
    induction htt with
    | single hw => exact h _ _ hw
    | tail _ hw ih => exact Nat.lt_trans ih (h _ _ hw)
  intro htt
  exact Nat.lt_irrefl _ (hlt htt)

/-! ## Disciplines -/

/-- Which locks may be asked for (`canLock`), where the programs make a call (`entry`), which calls are let through
(`allowed`) and what a call relies on (`fact`). The calls that are let through are made under the `gate`. -/
structure Discipline (V : L → Type) (E : Type) where
  gate : L
  canLock : List (Frame V E) → L → Prop
  entry : List (Frame V E) → E → Prop
  allowed : List (Frame V E) → E → Prop
  fact : E → (l : L) → V l → Prop
  gate_mem : ∀ {S : List (Frame V E)} {e : E}, entry S e → allowed S e → gate ∈ guards S

namespace Discipline

variable (D : Discipline V E)

/-- What the open calls of a stack say about the data of `l`. -/
def Fits (S : List (Frame V E)) (l : L) (v : V l) : Prop := ∀ e, Frame.call e ∈ S → D.fact e l v

/-- Data may be replaced if no fact is lost by it, or under the gate outside of every call. -/
def CanSet (S : List (Frame V E)) (l : L) (v₀ v : V l) : Prop :=
  (∀ e, D.fact e l v₀ → D.fact e l v) ∨ (D.gate ∈ guards S ∧ ∀ e, Frame.call e ∉ S)

/-- The program keeps to the discipline from the stack on, and ends with a stack and a value that meet `Q`. -/
def Ok : Prog V E α → List (Frame V E) → (List (Frame V E) → α → Prop) → Prop
  | .pure a, S, Q => Q S a
  | .lock l k, S, Q => D.canLock S l ∧ ∀ v, D.Fits S l v → Ok (k v) (.guard l v :: S) Q
  | .unlock l v k, S, Q => ∃ v₀ S', S = .guard l v₀ :: S' ∧ D.CanSet S' l v₀ v ∧ Ok k S' Q
  | .enter e k, S, Q => D.entry S e ∧ (D.allowed S e → Ok k (.call e :: S) Q)
  | .leave k, S, Q => ∃ e S', S = .call e :: S' ∧ Ok k S' Q
  | .choose k, S, Q => ∀ n, Ok (k n) S Q

variable {D}

theorem Ok.mono {m : Prog V E α} {S : List (Frame V E)} {Q Q' : List (Frame V E) → α → Prop}
    (hQ : ∀ S a, Q S a → Q' S a) (h : D.Ok m S Q) : D.Ok m S Q' := by
  induction m generalizing S with
  | pure a => exact hQ _ _ h
  | lock l k ih => exact ⟨h.1, fun v hv => ih v (h.2 v hv)⟩
  | unlock l v k ih =>
    obtain ⟨v₀, S', hS, hset, hk⟩ := h
    exact ⟨v₀, S', hS, hset, ih hk⟩
  | enter e k ih => exact ⟨h.1, fun ha => ih (h.2 ha)⟩
  | leave k ih =>
    obtain ⟨e, S', hS, hk⟩ := h
    exact ⟨e, S', hS, ih hk⟩
  | choose k ih => exact fun n => ih n (h n)

theorem Ok.bind {m : Prog V E α} {f : α → Prog V E β} {S : List (Frame V E)} {Q : List (Frame V E) → β → Prop}
    (h : D.Ok m S fun S' a => D.Ok (f a) S' Q) : D.Ok (m.bind f) S Q := by
  induction m generalizing S with
  | pure a => exact h
  | lock l k ih => exact ⟨h.1, fun v hv => ih v (h.2 v hv)⟩
  | unlock l v k ih =>
    obtain ⟨v₀, S', hS, hset, hk⟩ := h
    exact ⟨v₀, S', hS, hset, ih hk⟩
  | enter e k ih => exact ⟨h.1, fun ha => ih (h.2 ha)⟩
  | leave k ih =>
    obtain ⟨e, S', hS, hk⟩ := h
    exact ⟨e, S', hS, ih hk⟩
  | choose k ih => exact fun n => ih n (h n)

/-! ## Rules for fallible programs -/

variable (D) in
/-- The program keeps to the discipline and closes every scope it opens. -/
def Keeps (S : List (Frame V E)) (m : OptionT (Prog V E) α) : Prop := D.Ok m.run S fun S' _ => S' = S

variable {S : List (Frame V E)}

theorem Keeps.pure (a : α) : D.Keeps S (Pure.pure a) := rfl

theorem Keeps.fail : D.Keeps S (failure : OptionT (Prog V E) α) := rfl

theorem Keeps.anyNat : D.Keeps S anyNat := fun _ => rfl

theorem Keeps.any : D.Keeps S any := fun _ => rfl

theorem Keeps.fallible : D.Keeps S fallible := fun _ => rfl

theorem Keeps.bind {m : OptionT (Prog V E) α} {f : α → OptionT (Prog V E) β} (hm : D.Keeps S m)
    (hf : ∀ a, D.Keeps S (f a)) : D.Keeps S (m >>= f) := by
  apply Ok.bind
  refine Ok.mono ?_ hm
  rintro S' r rfl
  cases r with
  | none => rfl
  | some a => exact hf a

theorem Keeps.attempt {m : OptionT (Prog V E) α} (hm : D.Keeps S m) : D.Keeps S (attempt m) := by
  apply Ok.bind
  refine Ok.mono ?_ hm
  rintro S' r rfl
  rfl

/-- The rule of a guard: the data may be replaced as `CanSet` allows. -/
theorem Keeps.withGuard {l : L} {body : V l → OptionT (Prog V E) (α × V l)} (hl : D.canLock S l)
    (hb : ∀ v, D.Fits S l v → D.Ok (body v).run (.guard l v :: S)
      fun S' r => S' = .guard l v :: S ∧ ∀ a v', r = some (a, v') → D.CanSet S l v v') :
    D.Keeps S (withGuard l body) := by
  refine ⟨hl, fun v hv => Ok.bind (Ok.mono ?_ (hb v hv))⟩
  rintro S' r ⟨rfl, hr⟩
  cases r with
  | none => exact ⟨v, S, rfl, .inl fun e he => he, rfl⟩
  | some p =>
    obtain ⟨a, v'⟩ := p
    exact ⟨v, S, rfl, hr a v' rfl, rfl⟩

theorem Keeps.locking {l : L} {body : V l → OptionT (Prog V E) α} (hl : D.canLock S l)
    (hb : ∀ v, D.Fits S l v → D.Keeps (.guard l v :: S) (body v)) : D.Keeps S (locking l body) := by
  apply Keeps.withGuard hl
  intro v hv
  apply Ok.bind
  refine Ok.mono ?_ (hb v hv)
  rintro S' r rfl
  cases r with
  | none => exact ⟨rfl, fun _ _ h => by cases h⟩
  | some a =>
    refine ⟨rfl, fun a' v' h => ?_⟩
    cases h
    exact .inl fun e he => he

theorem Keeps.calling {e : E} {body : OptionT (Prog V E) α} (he : D.entry S e)
    (hb : D.allowed S e → D.Keeps (.call e :: S) body) : D.Keeps S (calling e body) := by
  refine ⟨he, fun ha => ?_⟩
  apply Ok.bind
  refine Ok.mono ?_ (hb ha)
  rintro S' r rfl
  exact ⟨e, S, rfl, rfl⟩

theorem Keeps.repeatN {body : OptionT (Prog V E) Unit} (hb : D.Keeps S body) (n : Nat) :
    D.Keeps S (repeatN body n) := by
  induction n with
  | zero => exact .pure ()
  | succ n ih => exact .bind hb fun _ => ih

theorem Keeps.loop {body : OptionT (Prog V E) Unit} (hb : D.Keeps S body) : D.Keeps S (loop body) :=
  .bind .anyNat fun n => hb.repeatN n

theorem Keeps.ite {b : Bool} {m m' : OptionT (Prog V E) α} (hm : b = true → D.Keeps S m)
    (hm' : b = false → D.Keeps S m') : D.Keeps S (if b then m else m') := by
  cases b with
  | true => exact hm rfl
  | false => exact hm' rfl

theorem Keeps.branch {m m' : OptionT (Prog V E) α} (hm : D.Keeps S m) (hm' : D.Keeps S m') :
    D.Keeps S (branch m m') :=
  .bind .any fun _ => .ite (fun _ => hm) fun _ => hm'

theorem Keeps.maybe {m : OptionT (Prog V E) Unit} (hm : D.Keeps S m) : D.Keeps S (maybe m) :=
  .branch hm (.pure ())

/-! ## The invariant of a run -/

/-- Every open call of the stack was made under the gate. -/
def Gated (D : Discipline V E) : List (Frame V E) → Prop
  | [] => True
  | .guard _ _ :: S => Gated D S
  | .call _ :: S => D.gate ∈ guards S ∧ Gated D S

@[simp] theorem gated_guard {l : L} {v : V l} {S : List (Frame V E)} : Gated D (.guard l v :: S) ↔ Gated D S := Iff.rfl

theorem Gated.mem_guards {S : List (Frame V E)} (h : Gated D S) {e : E} (he : Frame.call e ∈ S) :
    D.gate ∈ guards S := by
  induction S with
  | nil => cases he
  | cons f S ih =>
    cases f with
    | guard l v =>
      have he' : Frame.call e ∈ S := by simpa using he
      exact List.mem_cons_of_mem _ (ih h he')
    | call e' => exact h.1

/-- The programs of all tasks keep to the discipline; guards, lock words, data and the facts of open calls agree. -/
structure Inv (D : Discipline V E) (s : State V E) : Prop where
  ok : ∀ t, D.Ok (s.task t).prog (s.task t).stack fun S _ => S = []
  owner : ∀ t l, s.Holds t l → s.owner l = some t
  nodup : ∀ t, (guards (s.task t).stack).Nodup
  data : ∀ t l v, Frame.guard l v ∈ (s.task t).stack → s.data l = v
  gated : ∀ t, Gated D (s.task t).stack
  facts : ∀ t e, Frame.call e ∈ (s.task t).stack → ∀ l, D.fact e l (s.data l)

/-- At most one task holds a lock. -/
theorem Inv.holder_unique {s : State V E} (h : Inv D s) {t u : Nat} {l : L} (ht : s.Holds t l) (hu : s.Holds u l) :
    t = u := by
  have h₁ := h.owner t l ht
  have h₂ := h.owner u l hu
  rw [h₁] at h₂
  exact Option.some.inj h₂

variable (D) in
/-- The condition on a step of task `t`: a call it makes is allowed and what it relies on is so. -/
def Admits (s : State V E) (t : Nat) : Prop :=
  ∀ e, s.nextCall t = some e → D.allowed (s.task t).stack e ∧ ∀ l, D.fact e l (s.data l)

variable {Op : Type} [DecidableEq L] {body : Op → Prog V E Unit}

variable (D body) in
/-- Every step of the run meets the condition. -/
def RunAdmits (s : State V E) : List (Nat × Act Op) → Prop
  | [] => True
  | (t, a) :: es =>
    D.Admits s t ∧
      match s.step body t a with
      | some s' => RunAdmits s' es
      | none => True

omit [DecidableEq L] in
/-- A step that takes and drops no guard. -/
theorem Inv.setTask {s : State V E} (h : Inv D s) {t : Nat} {c : Task V E}
    (hok : D.Ok c.prog c.stack fun S _ => S = [])
    (hguards : guards c.stack = guards (s.task t).stack)
    (hmem : ∀ l v, Frame.guard l v ∈ c.stack → Frame.guard l v ∈ (s.task t).stack) (hgated : Gated D c.stack)
    (hfacts : ∀ e, Frame.call e ∈ c.stack → ∀ l, D.fact e l (s.data l)) : Inv D (s.setTask t c) := by
  have hcases : ∀ {P : Task V E → Prop}, P c → (∀ u, P (s.task u)) → ∀ u, P ((s.setTask t c).task u) := by
    intro P hc hs u
    by_cases hu : u = t
    · subst hu
      simpa using hc
    · simpa [hu] using hs u
  have hholds : ∀ u l, (s.setTask t c).Holds u l → s.Holds u l := by
    intro u l hl
    by_cases hu : u = t
    · subst hu
      simpa [State.Holds, hguards] using hl
    · simpa [State.Holds, hu] using hl
  constructor
  · exact hcases (P := fun c => D.Ok c.prog c.stack fun S _ => S = []) hok h.ok
  · exact fun u l hl => h.owner u l (hholds u l hl)
  · exact hcases (P := fun c => (guards c.stack).Nodup) (by rw [hguards]; exact h.nodup t) h.nodup
  · exact hcases (P := fun c => ∀ l v, Frame.guard l v ∈ c.stack → s.data l = v)
      (fun l v hv => h.data t l v (hmem l v hv)) h.data
  · exact hcases (P := fun c => Gated D c.stack) hgated h.gated
  · exact hcases (P := fun c => ∀ e, Frame.call e ∈ c.stack → ∀ l, D.fact e l (s.data l)) hfacts h.facts

theorem Inv.lock {s : State V E} (h : Inv D s) {t : Nat} {S : List (Frame V E)} {l : L} {k : V l → Prog V E Unit}
    (ht : s.task t = ⟨S, .lock l k⟩) (hfree : s.owner l = none) :
    Inv D { s.setTask t ⟨.guard l (s.data l) :: S, k (s.data l)⟩ with
      owner := Function.update s.owner l (some t) } := by
  have hnone : ∀ u, l ∉ guards (s.task u).stack := by
    intro u hu
    have hown := h.owner u l hu
    rw [hfree] at hown
    cases hown
  have hok := h.ok t
  have hnodup := h.nodup t
  have hdata := h.data t
  have hgated := h.gated t
  have hfacts := h.facts t
  have hnew := hnone t
  rw [ht] at hok hnodup hdata hgated hfacts hnew
  constructor
  · intro u
    by_cases hu : u = t
    · subst hu
      simpa using hok.2 (s.data l) fun e he => hfacts e he l
    · simpa [hu] using h.ok u
  · intro u l' hl'
    by_cases hll : l' = l
    · subst hll
      by_cases hu : u = t
      · simp [hu]
      · exact absurd (by simpa [State.Holds, hu] using hl') (hnone u)
    · by_cases hu : u = t
      · subst hu
        have hmem : l' ∈ guards S := by simpa [State.Holds, hll] using hl'
        have hold : s.Holds u l' := by simpa [State.Holds, ht] using hmem
        simpa [hll] using h.owner u l' hold
      · have hold : s.Holds u l' := by simpa [State.Holds, hu] using hl'
        simpa [hll] using h.owner u l' hold
  · intro u
    by_cases hu : u = t
    · subst hu
      simpa using ⟨hnew, hnodup⟩
    · simpa [hu] using h.nodup u
  · intro u l' v hv
    by_cases hu : u = t
    · subst hu
      have hv' : Frame.guard l' v ∈ .guard l (s.data l) :: S := by simpa using hv
      rcases List.mem_cons.mp hv' with heq | hmem
      · cases heq
        rfl
      · exact hdata l' v hmem
    · exact h.data u l' v (by simpa [hu] using hv)
  · intro u
    by_cases hu : u = t
    · subst hu
      simpa using hgated
    · simpa [hu] using h.gated u
  · intro u e he
    by_cases hu : u = t
    · subst hu
      exact hfacts e (by simpa using he)
    · exact h.facts u e (by simpa [hu] using he)

theorem Inv.unlock {s : State V E} (h : Inv D s) {t : Nat} {S : List (Frame V E)} {l : L} {v₀ v : V l}
    {k : Prog V E Unit} (ht : s.task t = ⟨.guard l v₀ :: S, .unlock l v k⟩) :
    Inv D { s.setTask t ⟨S, k⟩ with
      owner := Function.update s.owner l none, data := Function.update s.data l v } := by
  have hheld : s.Holds t l := by simp [State.Holds, ht]
  have hok := h.ok t
  have hnodup := h.nodup t
  have hdata := h.data t
  have hgated := h.gated t
  have hfacts := h.facts t
  rw [ht] at hok hnodup hdata hgated hfacts
  obtain ⟨w, S', hS, hset, hk⟩ := hok
  cases hS
  obtain ⟨hnew, hnodup'⟩ := List.nodup_cons.mp hnodup
  have hv₀ : s.data l = v₀ := hdata l v₀ (by simp)
  -- the guards that remain are of other locks
  have hother : ∀ u l', l' ∈ guards (Function.update s.task t ⟨S, k⟩ u).stack → l' ≠ l ∧ s.Holds u l' := by
    intro u l' hl'
    by_cases hu : u = t
    · subst hu
      have hmem : l' ∈ guards S := by simpa using hl'
      refine ⟨fun heq => hnew (heq ▸ hmem), ?_⟩
      simp [State.Holds, ht, hmem]
    · have hold : s.Holds u l' := by simpa [State.Holds, hu] using hl'
      refine ⟨fun heq => hu ?_, hold⟩
      subst heq
      exact h.holder_unique hold hheld
  have hframe : ∀ u f, f ∈ (Function.update s.task t ⟨S, k⟩ u).stack → f ∈ (s.task u).stack := by
    intro u f hf
    by_cases hu : u = t
    · subst hu
      rw [ht]
      exact List.mem_cons_of_mem _ (by simpa using hf)
    · simpa [hu] using hf
  constructor
  · intro u
    by_cases hu : u = t
    · subst hu
      simpa using hk
    · simpa [hu] using h.ok u
  · intro u l' hl'
    obtain ⟨hne, hold⟩ := hother u l' hl'
    simpa [hne] using h.owner u l' hold
  · intro u
    by_cases hu : u = t
    · subst hu
      simpa using hnodup'
    · simpa [hu] using h.nodup u
  · intro u l' v' hv'
    have hne : l' ≠ l := (hother u l' (mem_guards.mpr ⟨v', hv'⟩)).1
    have hold := h.data u l' v' (hframe u _ hv')
    simpa [hne] using hold
  · intro u
    by_cases hu : u = t
    · subst hu
      simpa using hgated
    · simpa [hu] using h.gated u
  · intro u e he l'
    have hold := h.facts u e (hframe u _ he)
    by_cases hll : l' = l
    · subst hll
      simp only [Function.update_self]
      rcases hset with hmono | ⟨hgate, hnocall⟩
      · exact hmono e (hv₀ ▸ hold l')
      · -- the open call belongs to another task, which then holds the gate as well
        exfalso
        have hu : u ≠ t := by
          rintro rfl
          exact hnocall e (by simpa using he)
        have hugate : s.Holds u D.gate := (h.gated u).mem_guards (hframe u _ he)
        have htgate : s.Holds t D.gate := by simp [State.Holds, ht, hgate]
        exact hu (h.holder_unique hugate htgate)
    · simpa [hll] using hold l'

theorem inv_step {s s' : State V E} (hbody : ∀ o, D.Ok (body o) [] fun S _ => S = []) {t : Nat} {a : Act Op}
    (h : Inv D s) (hadm : D.Admits s t) (hs : s.step body t a = some s') : Inv D s' := by
  cases step_cases hs with
  | start o ht =>
    apply h.setTask (hbody o)
    · simp [ht]
    · simp
    · trivial
    · simp
  | lock S l k ht hfree => exact h.lock ht hfree
  | unlock S l v₀ v k ht => exact h.unlock ht
  | enter S e k ht =>
    have hok := h.ok t
    have hgated := h.gated t
    have hfacts := h.facts t
    obtain ⟨hall, hfact⟩ := hadm e (by simp [State.nextCall, ht])
    rw [ht] at hok hgated hfacts hall
    apply h.setTask (hok.2 hall)
    · simp [ht]
    · simp [ht]
    · exact ⟨D.gate_mem hok.1 hall, hgated⟩
    · intro e' he'
      rcases List.mem_cons.mp he' with heq | hmem
      · cases heq
        exact hfact
      · exact hfacts e' hmem
  | leave S e k ht =>
    have hok := h.ok t
    have hgated := h.gated t
    have hfacts := h.facts t
    rw [ht] at hok hgated hfacts
    obtain ⟨e', S', hS, hk⟩ := hok
    cases hS
    apply h.setTask hk
    · simp [ht]
    · simp [ht]
    · exact hgated.2
    · exact fun e' he' => hfacts e' (List.mem_cons_of_mem _ he')
  | choose S k n ht =>
    have hok := h.ok t
    have hgated := h.gated t
    have hfacts := h.facts t
    rw [ht] at hok hgated hfacts
    apply h.setTask (hok n)
    · simp [ht]
    · simp [ht]
    · exact hgated
    · exact hfacts

/-- **The invariant holds along every run whose calls meet the condition.** -/
theorem inv_run {s s' : State V E} (hbody : ∀ o, D.Ok (body o) [] fun S _ => S = []) {es : List (Nat × Act Op)}
    (h : Inv D s) (hadm : D.RunAdmits body s es) (hr : s.run body es = some s') : Inv D s' := by
  induction es generalizing s with
  | nil =>
    cases hr
    exact h
  | cons e es ih =>
    obtain ⟨t, a⟩ := e
    obtain ⟨hfirst, hrest⟩ := hadm
    simp only [State.run] at hr
    cases hs : s.step body t a with
    | none => simp [hs] at hr
    | some s₁ =>
      simp only [hs] at hr hrest
      exact ih (inv_step hbody h hfirst hs) hrest hr

omit [DecidableEq L] in
/-- A state in which every task is idle. -/
theorem inv_of_idle {s : State V E} (h : ∀ t, s.task t = ⟨[], .pure ()⟩) : Inv D s := by
  constructor <;> intro t <;> simp [h t, State.Holds, Ok, Gated]

end Discipline

end Koros.Locks
