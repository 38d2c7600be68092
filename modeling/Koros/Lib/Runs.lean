import Mathlib.Data.Option.Basic

/-!
# Runs of a state machine

A machine is a partial function from a state and an event to the next state; `none` says that the event cannot happen
there. `runs` takes events one after the other. Three predicates speak about the whole of a run, up to the first event
that cannot happen: `Meets` (each event meets a condition in the state before it), `Visits` (each state has a property)
and `Takes` (each transition has one).

- `Visits.of_step`: an invariant that every step keeps, under the condition that the events meet, holds along the run;
- `Takes.of_step`: the same for a property of the transitions;
- `runs_concat`, `Takes.last`: runs taken apart at their last event;
- `runs_append`, `Visits.append`: one run after another;
- `Visits.imp`, `Visits.last`, `Meets.imp`: how the predicates are used.
-/
set_option autoImplicit false

namespace Koros.Lib

section Runs

variable {S E : Type} (step : S → E → Option S)

/-- The state after the events. -/
def runs (s : S) : List E → Option S
  | [] => some s
  | e :: es => (step s e).bind fun s' => runs s' es

/-- Every event meets `ok` in the state in which it happens. -/
def Meets (ok : S → E → Prop) (s : S) : List E → Prop
  | [] => True
  | e :: es => ok s e ∧ ∀ s', step s e = some s' → Meets ok s' es

instance Meets.decidable (ok : S → E → Prop) [∀ s e, Decidable (ok s e)] :
    (s : S) → (es : List E) → Decidable (Meets step ok s es)
  | _, [] => .isTrue trivial
  | s, e :: es =>
    match h : step s e with
    | none => decidable_of_iff (ok s e) ⟨fun hok => ⟨hok, by simp [h]⟩, And.left⟩
    | some s' =>
      have := Meets.decidable ok s' es
      decidable_of_iff (ok s e ∧ Meets step ok s' es)
        ⟨fun hok => ⟨hok.1, by simpa [h] using hok.2⟩, fun hm => ⟨hm.1, hm.2 s' h⟩⟩

/-- Every state of the run, the first one included, has `P`. -/
def Visits (P : S → Prop) (s : S) : List E → Prop
  | [] => P s
  | e :: es => P s ∧ ∀ s', step s e = some s' → Visits P s' es

/-- Every transition of the run has `P`. -/
def Takes (P : S → E → S → Prop) (s : S) : List E → Prop
  | [] => True
  | e :: es => ∀ s', step s e = some s' → P s e s' ∧ Takes P s' es

variable {step} {s s' : S} {ok ok' : S → E → Prop} {Inv P : S → Prop} {Q : S → E → S → Prop} {es : List E}

/-- A condition on the events alone. -/
theorem Meets.of_mem (hok : ∀ e ∈ es, ∀ s, ok s e) : Meets step ok s es := by
  induction es generalizing s with
  | nil => trivial
  | cons e es ih =>
    exact ⟨hok e (List.mem_cons_self ..) s, fun _ _ => ih fun e' he' => hok e' (List.mem_cons_of_mem _ he')⟩

/-- A run on which nothing is asked. -/
theorem Meets.of_forall (hok : ∀ s e, ok s e) : Meets step ok s es := .of_mem fun e _ s => hok s e

/-- An invariant that the steps keep holds in every state. -/
theorem Visits.of_step (hstep : ∀ s e s', Inv s → ok s e → step s e = some s' → Inv s') (h : Inv s)
    (hok : Meets step ok s es) : Visits step Inv s es := by
  induction es generalizing s with
  | nil => exact h
  | cons e es ih => exact ⟨h, fun s' hs => ih (hstep s e s' h hok.1 hs) (hok.2 s' hs)⟩

theorem Visits.imp (himp : ∀ s, Inv s → P s) (h : Visits step Inv s es) : Visits step P s es := by
  induction es generalizing s with
  | nil => exact himp s h
  | cons e es ih => exact ⟨himp s h.1, fun s' hs => ih (h.2 s' hs)⟩

/-- A property of the transitions that start in a state with the invariant. -/
theorem Takes.of_step (hstep : ∀ s e s', Inv s → ok s e → step s e = some s' → Inv s' ∧ Q s e s') (h : Inv s)
    (hok : Meets step ok s es) : Takes step Q s es := by
  induction es generalizing s with
  | nil => trivial
  | cons e es ih =>
    intro s' hs
    obtain ⟨hinv, hq⟩ := hstep s e s' h hok.1 hs
    exact ⟨hq, ih hinv (hok.2 s' hs)⟩

/-- A run with one more event. -/
theorem runs_concat (s : S) (es : List E) (e : E) : runs step s (es ++ [e]) = (runs step s es).bind fun s' => step s' e := by
  induction es generalizing s with
  | nil => simp [runs]
  | cons e' es ih => simp [runs, ih, Option.bind_assoc]

/-- The last transition of a run is one of its transitions. -/
theorem Takes.last {e : E} {s₁ s₂ : S} (h : Takes step Q s (es ++ [e])) (hrun : runs step s es = some s₁)
    (hs : step s₁ e = some s₂) : Q s₁ e s₂ := by
  induction es generalizing s with
  | nil =>
    cases hrun
    exact (h s₂ hs).1
  | cons e' es ih =>
    obtain ⟨s', hs', hrun⟩ := Option.bind_eq_some_iff.1 hrun
    exact ih (h s' hs').2 hrun

/-- A run that goes on from the end of another. -/
theorem runs_append (s : S) (es es' : List E) : runs step s (es ++ es') = (runs step s es).bind fun s' => runs step s' es' := by
  induction es generalizing s with
  | nil => simp [runs]
  | cons e es ih => simp [runs, ih, Option.bind_assoc]

theorem Visits.append {es' : List E} (h : Visits step P s es) (hrun : runs step s es = some s') (h' : Visits step P s' es') :
    Visits step P s (es ++ es') := by
  induction es generalizing s with
  | nil =>
    cases hrun
    exact h'
  | cons e es ih =>
    obtain ⟨s₁, hs, hrun⟩ := Option.bind_eq_some_iff.1 hrun
    refine ⟨h.1, fun s₂ hs₂ => ?_⟩
    obtain rfl := Option.some.inj (hs.symm.trans hs₂)
    exact ih (h.2 s₁ hs) hrun

/-- The state at the end of a run is one of its states. -/
theorem Visits.last (h : Visits step P s es) (hrun : runs step s es = some s') : P s' := by
  induction es generalizing s with
  | nil =>
    cases hrun
    exact h
  | cons e es ih =>
    obtain ⟨s₁, hs, hrun⟩ := Option.bind_eq_some_iff.1 hrun
    exact ih (h.2 s₁ hs) hrun

end Runs

end Koros.Lib
