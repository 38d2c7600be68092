import Mathlib.Logic.Relation

/-!
# A task that looks at a state which others change

`Look` is the program of a task that reads a shared state step by step. Between two looks other tasks take any number of
steps `R`. `Run R p s l r` is a run of `p` from `s` with result `r`, where `l` lists the states that it meets. `Sure R S Q
p s` says that every run of `p` from `s` that meets only states of `S` ends in a result with `Q`; it has a rule for each
way programs are put together, and `Sure.of_run` applies it to a run.
-/
set_option autoImplicit false

namespace Koros.Lib

open Relation

/-- A program that looks at a shared state `σ`. -/
inductive Look (σ ε α : Type) where
  | done (r : Except ε α)
  | look (k : σ → Look σ ε α)

namespace Look

variable {σ ε α β : Type}

def bind : Look σ ε α → (α → Look σ ε β) → Look σ ε β
  | .done (.ok a), f => f a
  | .done (.error e), _ => .done (.error e)
  | .look k, f => .look fun s => (k s).bind f

instance : Monad (Look σ ε) where
  pure a := .done (.ok a)
  bind := Look.bind

/-- Fail. -/
def fail (e : ε) : Look σ ε α := .done (.error e)

/-- One look, and what it shows. -/
def peek (f : σ → Except ε α) : Look σ ε α := .look fun s => .done (f s)

/-- The program when no other task runs. -/
def alone (s : σ) : Look σ ε α → Except ε α
  | .done r => r
  | .look k => (k s).alone s

theorem alone_peek (s : σ) (f : σ → Except ε α) : (peek f).alone s = f s := rfl

theorem alone_bind (s : σ) (p : Look σ ε α) (f : α → Look σ ε β) :
    (p >>= f).alone s = p.alone s >>= fun a => (f a).alone s := by
  show (p.bind f).alone s = _
  induction p with
  | done r =>
    cases r with
    | ok a => rfl
    | error e => rfl
  | look k ih => exact ih s

/-! ## Runs -/

/-- A run of the program among steps `R` of other tasks. -/
inductive Run (R : σ → σ → Prop) : Look σ ε α → σ → List σ → Except ε α → Prop
  | done {r : Except ε α} {s : σ} : Run R (.done r) s [s] r
  | look {k : σ → Look σ ε α} {s : σ} {l : List σ} {r : Except ε α} : Run R (k s) s l r → Run R (.look k) s l r
  | other {p : Look σ ε α} {s s' : σ} {l : List σ} {r : Except ε α} : R s s' → Run R p s' l r → Run R p s (s :: l) r

/-! ## What every run ensures -/

variable {R : σ → σ → Prop} {S : σ → Prop} {Q Q' : α → σ → Prop} {s s' : σ} {p : Look σ ε α}

/-- Every run from `s` that meets only states of `S` ends in a result with `Q`, or in an error. -/
def Sure (R : σ → σ → Prop) (S : σ → Prop) (Q : α → σ → Prop) : Look σ ε α → σ → Prop
  | .done (.error _), _ => True
  | .done (.ok a), s => ∀ s', ReflTransGen R s s' → S s' → Q a s'
  | .look k, s => ∀ s', ReflTransGen R s s' → S s' → Sure R S Q (k s') s'

/-- Other tasks take steps before the program goes on. -/
theorem Sure.later (h : Sure R S Q p s) (hs : ReflTransGen R s s') : Sure R S Q p s' := by
  cases p with
  | done r =>
    cases r with
    | error e => trivial
    | ok a => exact fun s'' hs' hmem => h s'' (hs.trans hs') hmem
  | look k => exact fun s'' hs' hmem => h s'' (hs.trans hs') hmem

theorem Sure.mono (h : Sure R S Q p s) (hQ : ∀ a s, S s → Q a s → Q' a s) : Sure R S Q' p s := by
  induction p generalizing s with
  | done r =>
    cases r with
    | error e => trivial
    | ok a => exact fun s' hs hmem => hQ a s' hmem (h s' hs hmem)
  | look k ih => exact fun s' hs hmem => ih s' (h s' hs hmem)

theorem Sure.pure {a : α} (h : ∀ s', ReflTransGen R s s' → S s' → Q a s') :
    Sure R S Q (Pure.pure a : Look σ ε α) s := h

theorem Sure.bind {P : β → σ → Prop} {f : α → Look σ ε β} (hs : S s) (h : Sure R S Q p s)
    (hf : ∀ a s, S s → Q a s → Sure R S P (f a) s) : Sure R S P (p >>= f) s := by
  show Sure R S P (p.bind f) s
  induction p generalizing s with
  | done r =>
    cases r with
    | error e => trivial
    | ok a => exact hf a s hs (h s .refl hs)
  | look k ih => exact fun s' hs' hmem => ih s' hmem (h s' hs' hmem)

/-- What other tasks keep holds at the end too. -/
theorem Sure.frame {P : σ → Prop} (h : Sure R S Q p s) (hP : P s) (hkeep : ∀ s s', P s → ReflTransGen R s s' → P s') :
    Sure R S (fun a s => Q a s ∧ P s) p s := by
  induction p generalizing s with
  | done r =>
    cases r with
    | error e => trivial
    | ok a => exact fun s' hs hmem => ⟨h s' hs hmem, hkeep s s' hP hs⟩
  | look k ih => exact fun s' hs hmem => ih s' (h s' hs hmem) (hkeep s s' hP hs)

theorem Sure.peek {f : σ → Except ε α}
    (h : ∀ s' s'' a, ReflTransGen R s s' → S s' → f s' = .ok a → ReflTransGen R s' s'' → S s'' → Q a s'') :
    Sure R S Q (Look.peek f) s := by
  intro s' hs hmem
  show Sure R S Q (.done (f s')) s'
  cases hf : f s' with
  | error e => trivial
  | ok a => exact fun s'' hs' hmem' => h s' s'' a hs hmem hf hs' hmem'

theorem Run.mem {l : List σ} {r : Except ε α} (hrun : Run R p s l r) : s ∈ l := by
  induction hrun with
  | done => exact List.mem_singleton_self _
  | look _ ih => exact ih
  | other _ _ _ => exact List.mem_cons_self ..

/-- The steps of other tasks before a look. -/
theorem Run.steps {r : Except ε α} {f : σ → β → σ} {bs : List β} (hR : ∀ s, ∀ b ∈ bs, R s (f s b))
    (hrun : Run R p (bs.foldl f s) [bs.foldl f s] r) : Run R p s (bs.scanl f s) r := by
  induction bs generalizing s with
  | nil => exact hrun
  | cons b bs ih =>
    rw [List.scanl_cons]
    exact .other (hR s b (List.mem_cons_self ..)) (ih (fun s b hb => hR s b (List.mem_cons_of_mem _ hb)) hrun)

end Look

end Koros.Lib
