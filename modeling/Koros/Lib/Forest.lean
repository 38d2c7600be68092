import Mathlib.Logic.Relation

/-!
# Trees given by their edges

A relation `R` from holders to what they hold, and a root. When nothing holds the root and everything else has one
holder, what the root reaches has no cycles (`acyclic_of_reach`). Reachability survives two edits: leaves go away
(`reach_of_leaves_gone`), and a node moves under a holder that is not below it (`reach_of_rehang`).
-/
set_option autoImplicit false

namespace Koros.Lib

open Relation

section Forest

variable {α : Type} {R R' : α → α → Prop} {root d q x : α}

/-- What the root reaches is on no cycle, if nothing holds the root and holders are unique. -/
theorem acyclic_of_reach (hroot : ∀ p, ¬R p root) (hone : ∀ p p' y, R p y → R p' y → p = p')
    (hx : ReflTransGen R root x) : ¬TransGen R x x := by
  induction hx with
  | refl =>
    intro hcycle
    obtain ⟨p, -, hp⟩ := (TransGen.tail'_iff).1 hcycle
    exact hroot p hp
  | tail hreach hedge ih =>
    rename_i b c
    intro hcycle
    -- The cycle enters `c` from its one holder `b`, which is then on a cycle too.
    obtain ⟨p, hcp, hpc⟩ := (TransGen.tail'_iff).1 hcycle
    obtain rfl := hone _ _ _ hpc hedge
    exact ih (TransGen.head' hedge hcp)

/-- Leaves go away, and what is left is still reached. -/
theorem reach_of_leaves_gone (gone : α → Prop) (hleaf : ∀ y z, gone y → ¬R y z)
    (hkeep : ∀ y z, R y z → ¬gone z → R' y z) (hx : ReflTransGen R root x) (hgone : ¬gone x) : ReflTransGen R' root x := by
  induction hx with
  | refl => exact .refl
  | tail hreach hedge ih => exact .tail (ih fun hy => hleaf _ _ hy hedge) (hkeep _ _ hedge hgone)

/-- A node that moves under `q`, which is not below it, takes what is below it along. -/
theorem reach_of_rehang (hacyclic : ¬TransGen R d d) (hbelow : ¬ReflTransGen R d q)
    (hkeep : ∀ y z, R y z → z ≠ d → R' y z) (hnew : R' q d) (hq : ReflTransGen R root q)
    (hx : ReflTransGen R root x) : ReflTransGen R' root x := by
  have houtside : ∀ y, ReflTransGen R root y → ¬ReflTransGen R d y → ReflTransGen R' root y := by
    intro y hy
    induction hy with
    | refl => exact fun _ => .refl
    | tail hreach hedge ih =>
      intro hnot
      have hprev := ih fun hb => hnot (hb.tail hedge)
      exact hprev.tail (hkeep _ _ hedge fun heq => hnot (heq ▸ .refl))
  have hd : ReflTransGen R' root d := (houtside q hq hbelow).tail hnew
  have hinside : ∀ y, ReflTransGen R d y → ReflTransGen R' d y := by
    intro y hy
    induction hy with
    | refl => exact .refl
    | tail hreach hedge ih =>
      refine ih.tail (hkeep _ _ hedge fun heq => hacyclic ?_)
      exact TransGen.tail' hreach (heq ▸ hedge)
  by_cases hdx : ReflTransGen R d x
  · exact hd.trans (hinside x hdx)
  · exact houtside x hx hdx

end Forest

end Koros.Lib
