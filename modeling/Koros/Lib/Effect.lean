/-!
# What a call leaves alone

Calls with a state and errors that keep the state (`EStateM`). `Keeps E I x`: the call `x` keeps the invariant `I`,
whether it succeeds or fails, and the errors it fails with are in `E`. `Fails E I x`: it does so and does not succeed.
`Reads E R x`: it changes nothing, and its outcome is the same in states that `R` relates. `Ends Q R x s`: from `s` it ends
with a result as in `Q` or with an error as in `R`. Each has a rule for every way calls are put together.
-/
set_option autoImplicit false

namespace Koros.Lib

variable {ε σ α β : Type} {E : ε → Prop} {I : σ → Prop} {R : σ → σ → Prop} {x : EStateM ε σ α}
  {f : α → EStateM ε σ β}

/-- The state a result leaves. -/
def finalState : EStateM.Result ε σ α → σ
  | .ok _ s => s
  | .error _ s => s

/-- The outcome of a result. -/
def outcome : EStateM.Result ε σ α → Except ε α
  | .ok a _ => .ok a
  | .error e _ => .error e

/-- An outcome that leaves the state alone. -/
def settle (o : Except ε α) (s : σ) : EStateM.Result ε σ α :=
  match o with
  | .ok a => .ok a s
  | .error e => .error e s

/-- An outcome whose error, if it is one, is in `E`. -/
def Within (E : ε → Prop) : Except ε α → Prop
  | .ok _ => True
  | .error e => E e

def Keeps (E : ε → Prop) (I : σ → Prop) (x : EStateM ε σ α) : Prop :=
  ∀ s, I s → Within E (outcome (x s)) ∧ I (finalState (x s))

def Fails (E : ε → Prop) (I : σ → Prop) (x : EStateM ε σ α) : Prop :=
  ∀ s, I s → ∃ e s', x s = .error e s' ∧ E e ∧ I s'

def Reads (E : ε → Prop) (R : σ → σ → Prop) (x : EStateM ε σ α) : Prop :=
  ∀ s t, R s t → ∃ o, Within E o ∧ x s = settle o s ∧ x t = settle o t

/-- A call after another one. -/
theorem bind_apply (x : EStateM ε σ α) (f : α → EStateM ε σ β) (s : σ) :
    (x >>= f) s = match x s with
      | .ok a s' => f a s'
      | .error e s' => .error e s' := rfl

/-! ## Keeping an invariant -/

theorem Fails.keeps (h : Fails E I x) : Keeps E I x := by
  intro s hs
  obtain ⟨e, s', hx, he, hs'⟩ := h s hs
  rw [hx]
  exact ⟨he, hs'⟩

theorem Keeps.pure (a : α) : Keeps E I (pure a : EStateM ε σ α) := fun _ hs => ⟨trivial, hs⟩

theorem Fails.throw {e : ε} (he : E e) : Fails E I (throw e : EStateM ε σ α) := fun s hs => ⟨e, s, rfl, he, hs⟩

theorem Keeps.bind (hx : Keeps E I x) (hf : ∀ a, Keeps E I (f a)) : Keeps E I (x >>= f) := by
  intro s hs
  have h := hx s hs
  rw [bind_apply]
  cases hr : x s with
  | ok a s' =>
    rw [hr] at h
    exact hf a s' h.2
  | error e s' =>
    rw [hr] at h
    exact h

theorem Keeps.get_bind {f : σ → EStateM ε σ β} (hf : ∀ s, I s → Keeps E I (f s)) : Keeps E I (get >>= f) :=
  fun s hs => hf s hs s hs

theorem Keeps.forM {γ : Type} {g : γ → EStateM ε σ PUnit} (l : List γ) (hg : ∀ c ∈ l, Keeps E I (g c)) :
    Keeps E I (l.forM g) := by
  induction l with
  | nil => exact Keeps.pure _
  | cons c l ih =>
    exact (hg c (List.mem_cons_self ..)).bind fun _ => ih fun d hd => hg d (List.mem_cons_of_mem _ hd)

/-! ## Not succeeding -/

theorem Fails.bind (hx : Keeps E I x) (hf : ∀ a, Fails E I (f a)) : Fails E I (x >>= f) := by
  intro s hs
  have h := hx s hs
  rw [bind_apply]
  cases hr : x s with
  | ok a s' =>
    rw [hr] at h
    exact hf a s' h.2
  | error e s' =>
    rw [hr] at h
    exact ⟨e, s', rfl, h.1, h.2⟩

/-- What follows a call that does not succeed is not reached. -/
theorem Fails.bind_left (hx : Fails E I x) : Fails E I (x >>= f) := by
  intro s hs
  obtain ⟨e, s', hr, he, hs'⟩ := hx s hs
  exact ⟨e, s', by rw [bind_apply, hr], he, hs'⟩

theorem Fails.get_bind {f : σ → EStateM ε σ β} (hf : ∀ s, I s → Fails E I (f s)) : Fails E I (get >>= f) :=
  fun s hs => hf s hs s hs

/-- A loop that meets an item it does not get past. -/
theorem Fails.forM {γ : Type} {g : γ → EStateM ε σ PUnit} (l : List γ) (hg : ∀ c ∈ l, Keeps E I (g c)) {d : γ}
    (hd : d ∈ l) (hfail : Fails E I (g d)) : Fails E I (l.forM g) := by
  induction l with
  | nil => cases hd
  | cons c l ih =>
    rcases List.mem_cons.1 hd with rfl | hd
    · exact hfail.bind_left
    · exact Fails.bind (hg c (List.mem_cons_self ..)) fun _ => ih (fun e he => hg e (List.mem_cons_of_mem _ he)) hd

/-! ## Reading -/

theorem Reads.pure (a : α) : Reads E R (pure a : EStateM ε σ α) := fun _ _ _ => ⟨.ok a, trivial, rfl, rfl⟩

theorem Reads.throw {e : ε} (he : E e) : Reads E R (throw e : EStateM ε σ α) := fun _ _ _ => ⟨.error e, he, rfl, rfl⟩

theorem Reads.bind (hx : Reads E R x) (hf : ∀ a, Reads E R (f a)) : Reads E R (x >>= f) := by
  intro s t hst
  obtain ⟨o, ho, hs, ht⟩ := hx s t hst
  rw [bind_apply, bind_apply, hs, ht]
  cases o with
  | error e => exact ⟨.error e, ho, rfl, rfl⟩
  | ok a => exact hf a s t hst

/-- A part of the state that related states share may be read. -/
theorem Reads.get_bind {f : σ → EStateM ε σ β} (heq : ∀ s t, R s t → f t = f s) (hf : ∀ s, Reads E R (f s)) :
    Reads E R (get >>= f) := by
  intro s t hst
  obtain ⟨o, ho, hs, ht⟩ := hf s s t hst
  exact ⟨o, ho, hs, by rw [← ht, ← heq s t hst]; rfl⟩

theorem Reads.mono {Q : σ → σ → Prop} (h : Reads E Q x) (hRQ : ∀ s t, R s t → Q s t) : Reads E R x :=
  fun s t hst => h s t (hRQ s t hst)

/-- Reading keeps every invariant. -/
theorem Reads.keeps (h : Reads E R x) (hR : ∀ s, I s → R s s) : Keeps E I x := by
  intro s hs
  obtain ⟨o, ho, hx, -⟩ := h s s (hR s hs)
  rw [hx]
  cases o with
  | ok a => exact ⟨trivial, hs⟩
  | error e => exact ⟨ho, hs⟩

/-- The outcome of reading does not depend on which of the related states is read. -/
theorem Reads.outcome_eq (h : Reads E R x) {s t : σ} (hst : R s t) : outcome (x s) = outcome (x t) := by
  obtain ⟨o, -, hs, ht⟩ := h s t hst
  rw [hs, ht]
  cases o <;> rfl

/-! ## From one state -/

/-- Where a call from `s` ends. -/
def Ends (Q : α → σ → Prop) (R : ε → σ → Prop) (x : EStateM ε σ α) (s : σ) : Prop :=
  match x s with
  | .ok a s' => Q a s'
  | .error e s' => R e s'

section Ends

variable {s s' : σ} {a : α} {Q Q' : α → σ → Prop} {Q₂ : β → σ → Prop} {R R' : ε → σ → Prop}

theorem Ends.ok (h : x s = .ok a s') (hQ : Q a s') : Ends Q R x s := by
  unfold Ends
  rw [h]
  exact hQ

theorem Ends.error {e : ε} (h : x s = .error e s') (hR : R e s') : Ends Q R x s := by
  unfold Ends
  rw [h]
  exact hR

theorem Ends.of_ok (h : Ends Q R x s) (hx : x s = .ok a s') : Q a s' := by
  unfold Ends at h
  rwa [hx] at h

theorem Ends.of_error (h : Ends Q R x s) {e : ε} (hx : x s = .error e s') : R e s' := by
  unfold Ends at h
  rwa [hx] at h

/-- What is known of the results beside. -/
theorem Ends.imp (h : Ends Q R x s) (hQ : ∀ a s', x s = .ok a s' → Q a s' → Q' a s') (hR : ∀ e s', R e s' → R' e s') :
    Ends Q' R' x s := by
  cases hx : x s with
  | ok a s' => exact .ok hx (hQ a s' hx (h.of_ok hx))
  | error e s' => exact .error hx (hR e s' (h.of_error hx))

theorem Ends.bind (h : Ends Q R x s) (hf : ∀ a s', Q a s' → Ends Q₂ R (f a) s') : Ends Q₂ R (x >>= f) s := by
  unfold Ends
  rw [bind_apply]
  cases hx : x s with
  | ok a s' => exact hf a s' (h.of_ok hx)
  | error e s' => exact h.of_error hx

/-- The first call is known. -/
theorem Ends.step (hx : x s = .ok a s') (h : Ends Q₂ R (f a) s') : Ends Q₂ R (x >>= f) s :=
  (Ends.ok (Q := fun b t => b = a ∧ t = s') hx ⟨rfl, rfl⟩).bind fun _ _ hb => by rwa [hb.1, hb.2]

theorem Ends.congr {y : EStateM ε σ α} (hy : x s = y s) (h : Ends Q R y s) : Ends Q R x s := by
  unfold Ends at h ⊢
  rwa [hy]

end Ends

end Koros.Lib
