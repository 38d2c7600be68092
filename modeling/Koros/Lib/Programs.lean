import Mathlib.Data.Nat.Basic

/-!
# Programs that call a machine

A program is a tree of calls: which call comes next may depend on the results of the earlier ones. A machine is a function
from a state and a call to the result and the next state.

- `exec_value`: a machine that always answers as a fixed function does runs a program to its `value`;
- `value_bind`: how values compose.
-/
set_option autoImplicit false

namespace Koros.Lib

/-- A program with calls `O`, results `R`, errors `E` and values `α`. -/
inductive Prog (O R E α : Type) where
  | ret (a : α)
  | fail (e : E)
  | call (o : O) (next : R → Prog O R E α)

namespace Prog

variable {O R E α β S : Type}

def bind : Prog O R E α → (α → Prog O R E β) → Prog O R E β
  | ret a, f => f a
  | fail e, _ => fail e
  | call o next, f => call o fun r => (next r).bind f

instance : Monad (Prog O R E) where
  pure := ret
  bind := bind

/-- Run a program on a machine. -/
def exec (step : S → O → R × S) : Prog O R E α → S → Except E α × S
  | ret a, s => (.ok a, s)
  | fail e, s => (.error e, s)
  | call o next, s => (next (step s o).1).exec step (step s o).2

/-- The result of a program whose calls are answered by a function. -/
def value (answer : O → R) : Prog O R E α → Except E α
  | ret a => .ok a
  | fail e => .error e
  | call o next => (next (answer o)).value answer

/-- A program does not see the state of a machine that answers as `answer` does. -/
theorem exec_value {step : S → O → R × S} {answer : O → R} {I : S → Prop}
    (hstep : ∀ s o, I s → (step s o).1 = answer o ∧ I (step s o).2) (p : Prog O R E α) {s : S} (h : I s) :
    (p.exec step s).1 = p.value answer ∧ I (p.exec step s).2 := by
  induction p generalizing s with
  | ret a => exact ⟨rfl, h⟩
  | fail e => exact ⟨rfl, h⟩
  | call o next ih =>
    obtain ⟨hres, hinv⟩ := hstep s o h
    simp only [exec, value, hres]
    exact ih _ hinv

variable {answer : O → R}

@[simp] theorem value_pure (a : α) : (pure a : Prog O R E α).value answer = .ok a := rfl

@[simp] theorem value_fail (e : E) : (fail e : Prog O R E α).value answer = .error e := rfl

theorem value_bind (p : Prog O R E α) (f : α → Prog O R E β) :
    (p >>= f).value answer = p.value answer >>= fun a => (f a).value answer := by
  induction p with
  | ret a => rfl
  | fail e => rfl
  | call o next ih => exact ih (answer o)

end Prog

end Koros.Lib
