import Mathlib.Data.List.Induction
import Mathlib.Data.List.Nodup
import Mathlib.Data.List.Count
import Mathlib.Algebra.BigOperators.Group.List.Basic
import Mathlib.Algebra.Ring.Nat

/-!
# Trees of pointers

Nodes with numbered pointers to other nodes, 0 being no node. Below every root hangs a tree of a depth that the root
decides; whether what lies at the lowest level has pointers of its own plays no part. A spot is a root with a path below it.

- `Points.node_eq`, `points_setRoot`, `points_setChild`: one pointer is changed, with nothing below it before and after;
- `Unique`: no node lies at two spots, which is what makes a change of one node a change at one spot;
- `node_cut`: a set of spots is cut off; `Leads`: the spots above a node of the lowest level;
- `treeCount`, `Points.count_eq`: how many nodes there are.
-/
set_option autoImplicit false

namespace Koros.Lib

/-- The node at the end of a path. -/
def walk {N : Type} [Zero N] [DecidableEq N] (child : N → Nat → N) : N → List Nat → N
  | b, [] => b
  | b, i :: path => if b = 0 then 0 else walk child (child b i) path

structure Pointers (K N : Type) where
  root : K → N
  child : N → Nat → N
  depth : K → Nat

namespace Pointers

variable {K N : Type} [Zero N] [DecidableEq N]

def node (T : Pointers K N) (x : K × List Nat) : N := walk T.child (T.root x.1) x.2

/-- Not below the lowest level. -/
def Inside (T : Pointers K N) (x : K × List Nat) : Prop := x.2.length ≤ T.depth x.1

/-- A spot whose node has pointers. -/
def Inner (T : Pointers K N) (x : K × List Nat) : Prop := x.2.length < T.depth x.1 ∧ T.node x ≠ 0

/-- No node lies at two spots. -/
def Unique (T : Pointers K N) : Prop :=
  ∀ x y, T.Inside x → T.Inside y → T.node x ≠ 0 → T.node x = T.node y → x = y

/-- Pointer `i` of a spot. -/
def below (x : K × List Nat) (i : Nat) : K × List Nat := (x.1, x.2 ++ [i])

end Pointers

/-! ## Walking -/

section Walk

variable {N : Type} [Zero N] [DecidableEq N] {child child' : N → Nat → N}

@[simp] theorem walk_nil (b : N) : walk child b [] = b := rfl

@[simp] theorem walk_zero (path : List Nat) : walk child 0 path = 0 := by
  cases path with
  | nil => rfl
  | cons i path => exact if_pos rfl

theorem walk_cons {b : N} (hb : b ≠ 0) (i : Nat) (path : List Nat) :
    walk child b (i :: path) = walk child (child b i) path := if_neg hb

theorem walk_append (b : N) (p q : List Nat) : walk child b (p ++ q) = walk child (walk child b p) q := by
  induction p generalizing b with
  | nil => rfl
  | cons i p ih =>
    by_cases hb : b = 0
    · subst hb
      simp
    · rw [List.cons_append, walk_cons hb, walk_cons hb, ih]

/-- A walk depends on the pointers of the nodes it leaves. -/
theorem walk_congr (path : List Nat) : ∀ {b : N},
    (∀ p i q, path = p ++ i :: q → walk child b p ≠ 0 → child' (walk child b p) i = child (walk child b p) i) →
    walk child' b path = walk child b path := by
  induction path with
  | nil => exact fun _ => rfl
  | cons i path ih =>
    intro b h
    by_cases hb : b = 0
    · subst hb
      simp
    · have hi : child' b i = child b i := h [] i path rfl hb
      rw [walk_cons hb, walk_cons hb, hi]
      refine ih fun p j q hp hne => ?_
      have := h (i :: p) j q (by rw [hp]; rfl)
      rw [walk_cons hb] at this
      exact this hne

end Walk

namespace Pointers

variable {K N : Type} [Zero N] [DecidableEq N] {T T' : Pointers K N}

@[simp] theorem node_root (T : Pointers K N) (k : K) : T.node (k, []) = T.root k := rfl

theorem node_below (T : Pointers K N) (x : K × List Nat) (i : Nat) :
    T.node (below x i) = if T.node x = 0 then 0 else T.child (T.node x) i := walk_append ..

theorem node_below_of_ne {x : K × List Nat} (h : T.node x ≠ 0) (i : Nat) :
    T.node (below x i) = T.child (T.node x) i := by
  rw [node_below, if_neg h]

/-- From the root down. -/
theorem spot_induction {motive : K × List Nat → Prop} (root : ∀ k, motive (k, []))
    (step : ∀ x i, motive x → motive (below x i)) (x : K × List Nat) : motive x := by
  obtain ⟨k, path⟩ := x
  induction path using List.reverseRecOn with
  | nil => exact root k
  | append_singleton p i ih => exact step (k, p) i ih

theorem below_inj {x y : K × List Nat} {i j : Nat} (h : below x i = below y j) : x = y ∧ i = j := by
  obtain ⟨k, p⟩ := x
  obtain ⟨l, q⟩ := y
  simp only [below, Prod.mk.injEq] at h
  obtain ⟨rfl, hpq⟩ := h
  obtain ⟨rfl, hij⟩ := List.append_inj' hpq rfl
  simp only [List.cons.injEq, and_true] at hij
  exact ⟨rfl, hij⟩

theorem below_ne_root (x : K × List Nat) (i : Nat) (k : K) : below x i ≠ (k, []) := by
  intro h
  have := congrArg (fun y => y.2.length) h
  simp [below] at this

/-- A spot is not below itself. -/
theorem below_ne (x : K × List Nat) (i : Nat) : below x i ≠ x := by
  intro h
  have := congrArg (fun y => y.2.length) h
  simp [below] at this

omit [Zero N] [DecidableEq N] in
theorem inside_below {x : K × List Nat} {i : Nat} : T.Inside (below x i) ↔ x.2.length < T.depth x.1 := by
  simp only [Inside, below, List.length_append, List.length_singleton]
  omega

omit [Zero N] [DecidableEq N] in
theorem Inside.of_below {x : K × List Nat} {i : Nat} (h : T.Inside (below x i)) : T.Inside x := by
  rw [inside_below] at h
  exact Nat.le_of_lt h

theorem Inner.inside {x : K × List Nat} (h : T.Inner x) : T.Inside x := Nat.le_of_lt h.1

/-- What lies below a spot that is not empty has a node above it. -/
theorem inner_of_below {x : K × List Nat} {i : Nat} (h : T.Inside (below x i)) (hne : T.node (below x i) ≠ 0) :
    T.Inner x := by
  refine ⟨inside_below.1 h, fun h0 => hne ?_⟩
  rw [node_below, if_pos h0]

/-! ## Changing one pointer -/

section Point

variable {y : K × List Nat} {v : N}

/-- One pointer, that of spot `y`, differs; there is nothing below `y` before and after. -/
structure Points (T T' : Pointers K N) (y : K × List Nat) (v : N) : Prop where
  depth : T'.depth = T.depth
  root : ∀ k, (k, []) ≠ y → T'.root k = T.root k
  child : ∀ x, T.Inner x → x ≠ y → ∀ i, below x i ≠ y → T'.child (T.node x) i = T.child (T.node x) i
  leaf : T.Inner y → ∀ i, T.child (T.node y) i = 0
  leaf' : v ≠ 0 → y.2.length < T.depth y.1 → ∀ i, T'.child v i = 0
  new : (∃ k, y = (k, []) ∧ T'.root k = v) ∨ ∃ x i, y = below x i ∧ T.Inner x ∧ T'.child (T.node x) i = v

variable (h : Points T T' y v)

include h

theorem Points.inside {x : K × List Nat} : T'.Inside x ↔ T.Inside x := by
  unfold Inside
  rw [h.depth]

/-- **The change of one pointer** is a change at one spot. -/
theorem Points.node_eq [DecidableEq K] : ∀ x, T.Inside x → T'.node x = if x = y then v else T.node x := by
  refine spot_induction (fun k _ => ?_) fun x i ih hin => ?_
  · rcases h.new with ⟨l, rfl, hl⟩ | ⟨x, i, rfl, -⟩
    · by_cases hk : k = l
      · subst hk
        rw [if_pos rfl]
        exact hl
      · have hne : ((k, []) : K × List Nat) ≠ (l, []) := by simpa using hk
        rw [if_neg hne]
        exact h.root k hne
    · rw [if_neg (below_ne_root x i k).symm]
      exact h.root k (below_ne_root x i k).symm
  · have hx := ih hin.of_below
    rw [node_below]
    by_cases hxy : x = y
    · -- directly below the changed pointer
      subst hxy
      rw [if_pos rfl] at hx
      rw [hx, if_neg (below_ne x i)]
      have hold : T.node (below x i) = 0 := by
        by_contra hne
        have hinner := inner_of_below hin hne
        rw [node_below_of_ne hinner.2, h.leaf hinner i] at hne
        exact hne rfl
      rw [hold]
      split
      · rfl
      · rename_i hv
        exact h.leaf' hv (inside_below.1 hin) i
    · rw [if_neg hxy] at hx
      rw [hx]
      by_cases hy : below x i = y
      · rw [if_pos hy]
        rcases h.new with ⟨l, rfl, -⟩ | ⟨z, j, rfl, hz, hv⟩
        · exact absurd hy (below_ne_root x i l)
        · obtain ⟨rfl, rfl⟩ := below_inj hy
          rw [if_neg hz.2]
          exact hv
      · rw [if_neg hy, node_below]
        by_cases h0 : T.node x = 0
        · rw [if_pos h0, if_pos h0]
        · rw [if_neg h0, if_neg h0]
          exact h.child x ⟨inside_below.1 hin, h0⟩ hxy i hy

/-- A change to a node that is nowhere in the trees keeps them apart. -/
theorem Points.unique [DecidableEq K] (hu : T.Unique) (hv : ∀ x, T.Inside x → T.node x ≠ 0 → T.node x ≠ v) :
    T'.Unique := by
  intro a b ha hb hne heq
  rw [h.inside] at ha hb
  rw [h.node_eq a ha] at hne heq
  rw [h.node_eq b hb] at heq
  by_cases hay : a = y <;> by_cases hby : b = y
  · rw [hay, hby]
  · rw [if_pos hay] at hne heq
    rw [if_neg hby] at heq
    exact absurd heq.symm (hv b hb (heq ▸ hne))
  · rw [if_neg hay] at hne heq
    rw [if_pos hby] at heq
    exact absurd heq (hv a ha hne)
  · rw [if_neg hay] at hne heq
    rw [if_neg hby] at heq
    exact hu a b ha hb hne heq

end Point

/-- A root is changed. -/
theorem points_setRoot {k : K} {v : N} (hdepth : T'.depth = T.depth) (hroot : ∀ l, l ≠ k → T'.root l = T.root l)
    (hchild : ∀ x, T.Inner x → ∀ i, T'.child (T.node x) i = T.child (T.node x) i)
    (hleaf : 0 < T.depth k → T.root k ≠ 0 → ∀ i, T.child (T.root k) i = 0)
    (hleaf' : v ≠ 0 → 0 < T.depth k → ∀ i, T'.child v i = 0) (hv : T'.root k = v) : Points T T' (k, []) v where
  depth := hdepth
  root := fun l hl => hroot l fun hlk => hl (by rw [hlk])
  child := fun x hx _ i _ => hchild x hx i
  leaf := fun hy => hleaf hy.1 hy.2
  leaf' := hleaf'
  new := .inl ⟨k, rfl, hv⟩

/-- A pointer of an inner node is changed. -/
theorem points_setChild (hu : T.Unique) {x : K × List Nat} {i : Nat} {v : N} (hdepth : T'.depth = T.depth)
    (hroot : ∀ k, T'.root k = T.root k) (hx : T.Inner x)
    (hchild : ∀ z, T.Inner z → ∀ j, (T.node z ≠ T.node x ∨ j ≠ i) → T'.child (T.node z) j = T.child (T.node z) j)
    (hleaf : T.Inner (below x i) → ∀ j, T.child (T.node (below x i)) j = 0)
    (hleaf' : v ≠ 0 → x.2.length + 1 < T.depth x.1 → ∀ j, T'.child v j = 0) (hv : T'.child (T.node x) i = v) :
    Points T T' (below x i) v where
  depth := hdepth
  root := fun k _ => hroot k
  child := fun z hz _ j hj => by
    refine hchild z hz j ?_
    by_contra hnot
    rw [not_or, not_not, not_not] at hnot
    obtain ⟨hnode, rfl⟩ := hnot
    exact hj (by rw [hu z x hz.inside hx.inside hz.2 hnode])
  leaf := hleaf
  leaf' := fun hne hlen => hleaf' hne (by simpa [below] using hlen)
  new := .inr ⟨x, i, rfl, hx, hv⟩

/-- Below a root whose inner nodes are the same, everything is. -/
theorem node_congr {k : K} (hroot : T'.root k = T.root k)
    (hchild : ∀ p, T.Inner (k, p) → ∀ i, T'.child (T.node (k, p)) i = T.child (T.node (k, p)) i) {p : List Nat}
    (hin : T.Inside (k, p)) : T'.node (k, p) = T.node (k, p) := by
  unfold node
  rw [show T'.root (k, p).1 = T.root (k, p).1 from hroot]
  refine walk_congr p fun q i r hp hne => hchild q ⟨?_, hne⟩ i
  have hlen : p.length ≤ T.depth k := hin
  rw [hp, List.length_append, List.length_cons] at hlen
  show q.length < T.depth k
  omega

theorem Unique.congr (hu : T.Unique) (hin : ∀ x, T'.Inside x ↔ T.Inside x)
    (hnode : ∀ x, T.Inside x → T'.node x = T.node x ∨ T'.node x = 0) : T'.Unique := by
  intro x y hx hy hne heq
  rw [hin] at hx hy
  have hx' := (hnode x hx).resolve_right hne
  have hy' := (hnode y hy).resolve_right (heq ▸ hne)
  rw [hx'] at hne heq
  rw [hy'] at heq
  exact hu x y hx hy hne heq

/-! ## Cutting -/

section Cut

/-- At or below a spot. -/
def Under (x z : K × List Nat) : Prop := x.1 = z.1 ∧ x.2 <+: z.2

theorem Under.refl (x : K × List Nat) : Under x x := ⟨rfl, List.prefix_refl _⟩

theorem under_below (x : K × List Nat) (i : Nat) : Under x (below x i) := ⟨rfl, List.prefix_append ..⟩

theorem Under.trans {x y z : K × List Nat} (h : Under x y) (h' : Under y z) : Under x z :=
  ⟨h.1.trans h'.1, h.2.trans h'.2⟩

theorem under_below_iff {x z : K × List Nat} {i : Nat} : Under x (below z i) ↔ Under x z ∨ x = below z i := by
  obtain ⟨k, p⟩ := x
  obtain ⟨l, q⟩ := z
  simp only [Under, below, List.prefix_concat_iff, Prod.mk.injEq]
  tauto

/-- What is under a spot is the spot itself or under one of its pointers. -/
theorem under_iff {x z : K × List Nat} : Under x z ↔ x = z ∨ ∃ i, Under (below x i) z := by
  obtain ⟨k, p⟩ := x
  obtain ⟨l, q⟩ := z
  constructor
  · rintro ⟨rfl, r, rfl⟩
    cases r with
    | nil => exact .inl (by simp)
    | cons i r => exact .inr ⟨i, rfl, by simp [below]⟩
  · rintro (h | ⟨i, h⟩)
    · rw [h]
      exact .refl _
    · exact (under_below _ i).trans h

/-- The pointers of two spots are apart. -/
theorem Under.below_inj {x z : K × List Nat} {i j : Nat} (h : Under (below x i) z) (h' : Under (below x j) z) : i = j := by
  obtain ⟨-, r, hr⟩ := h
  obtain ⟨-, r', hr'⟩ := h'
  have heq := hr.trans hr'.symm
  simp only [below, List.append_assoc, List.append_cancel_left_eq, List.singleton_append, List.cons.injEq] at heq
  exact heq.1

/-- A set of spots is cut off: no pointer leads into it any more. -/
theorem node_cut {C : K × List Nat → Prop} (hclosed : ∀ x i, C x → C (below x i))
    (hroot : ∀ k, (C (k, []) → T'.root k = 0) ∧ (¬ C (k, []) → T'.root k = T.root k))
    (hchild : ∀ x i, T.Inner x → ¬ C x → (C (below x i) → T'.child (T.node x) i = 0) ∧
      (¬ C (below x i) → T'.child (T.node x) i = T.child (T.node x) i)) :
    ∀ x, T.Inside x → (C x → T'.node x = 0) ∧ (¬ C x → T'.node x = T.node x) := by
  refine spot_induction (fun k _ => hroot k) fun x i ih hin => ?_
  obtain ⟨ih₀, ih₁⟩ := ih hin.of_below
  rw [node_below]
  by_cases hC : C x
  · rw [if_pos (ih₀ hC)]
    exact ⟨fun _ => rfl, fun hno => absurd (hclosed x i hC) hno⟩
  · rw [ih₁ hC]
    by_cases h0 : T.node x = 0
    · rw [if_pos h0, node_below, if_pos h0]
      exact ⟨fun _ => rfl, fun _ => rfl⟩
    · rw [if_neg h0, node_below_of_ne h0]
      exact hchild x i ⟨inside_below.1 hin, h0⟩ hC

/-- There is a node at the lowest level under a spot. -/
def Leads (T : Pointers K N) (x : K × List Nat) : Prop :=
  ∃ z, Under x z ∧ z.2.length = T.depth z.1 ∧ T.node z ≠ 0

theorem Leads.of_under {x z : K × List Nat} (h : T.Leads z) (hx : Under x z) : T.Leads x := by
  obtain ⟨y, hy, hlen, hne⟩ := h
  exact ⟨y, hx.trans hy, hlen, hne⟩

/-- Above a node there are nodes. -/
theorem node_ne_zero_of_under {x z : K × List Nat} (hx : Under x z) (h : T.node z ≠ 0) : T.node x ≠ 0 := by
  obtain ⟨k, p⟩ := x
  obtain ⟨l, q⟩ := z
  obtain ⟨rfl, r, rfl⟩ := hx
  intro h0
  refine h ?_
  show walk T.child (T.root k) (p ++ r) = 0
  rw [walk_append, show walk T.child (T.root k) p = 0 from h0, walk_zero]

theorem Leads.node_ne_zero {x : K × List Nat} (h : T.Leads x) : T.node x ≠ 0 := by
  obtain ⟨z, hx, -, hne⟩ := h
  exact node_ne_zero_of_under hx hne

/-- At the lowest level. -/
theorem leads_leaf {x : K × List Nat} (hx : x.2.length = T.depth x.1) : T.Leads x ↔ T.node x ≠ 0 := by
  refine ⟨Leads.node_ne_zero, fun h => ⟨x, .refl x, hx, h⟩⟩

/-- Above the lowest level. -/
theorem leads_iff {x : K × List Nat} (hx : x.2.length < T.depth x.1) : T.Leads x ↔ ∃ i, T.Leads (below x i) := by
  constructor
  · rintro ⟨z, hz, hlen, hne⟩
    rcases under_iff.1 hz with rfl | ⟨i, hi⟩
    · exact absurd hx (by omega)
    · exact ⟨i, z, hi, hlen, hne⟩
  · rintro ⟨i, h⟩
    exact h.of_under (under_below x i)

/-- The nodes at the lowest level decide. -/
theorem leads_congr (hdepth : T'.depth = T.depth)
    (h : ∀ z, z.2.length = T.depth z.1 → (T'.node z ≠ 0 ↔ T.node z ≠ 0)) (x : K × List Nat) : T'.Leads x ↔ T.Leads x := by
  unfold Leads
  rw [hdepth]
  refine exists_congr fun z => and_congr_right fun _ => ?_
  exact and_congr_right fun hz => h z hz

end Cut

end Pointers

/-! ## Counting -/

/-- Paths of at most `l` pointers, each of them one of the first `w`. -/
def paths (w : Nat) : Nat → List (List Nat)
  | 0 => [[]]
  | l + 1 => [] :: (List.range w).flatMap fun i => (paths w l).map (i :: ·)

theorem mem_paths {w l : Nat} {p : List Nat} : p ∈ paths w l ↔ p.length ≤ l ∧ ∀ i ∈ p, i < w := by
  induction l generalizing p with
  | zero =>
    simp only [paths, List.mem_singleton, Nat.le_zero, List.length_eq_zero_iff]
    exact ⟨fun h => ⟨h, by simp [h]⟩, fun h => h.1⟩
  | succ l ih =>
    cases p with
    | nil => simp [paths]
    | cons i p =>
      simp only [paths, List.mem_cons, reduceCtorEq, List.mem_flatMap, List.mem_range, List.mem_map, ih, List.cons.injEq,
        false_or, List.length_cons, Nat.add_le_add_iff_right, forall_eq_or_imp]
      constructor
      · rintro ⟨j, hj, q, hq, rfl, rfl⟩
        exact ⟨hq.1, hj, hq.2⟩
      · rintro ⟨hlen, hi, hp⟩
        exact ⟨i, hi, p, ⟨hlen, hp⟩, rfl, rfl⟩

theorem nodup_paths (w l : Nat) : (paths w l).Nodup := by
  induction l with
  | zero => simp [paths]
  | succ l ih =>
    refine List.nodup_cons.2 ⟨by simp, List.nodup_flatMap.2 ⟨fun i _ => ih.map fun _ _ h => (List.cons.inj h).2, ?_⟩⟩
    refine (List.nodup_range (n := w)).pairwise_of_forall_ne fun i _ j _ hij => ?_
    show List.Disjoint _ _
    rw [List.disjoint_left]
    rintro p hp hq
    obtain ⟨q, -, rfl⟩ := List.mem_map.1 hp
    obtain ⟨r, -, hr⟩ := List.mem_map.1 hq
    exact hij (List.cons.inj hr).1.symm

/-- Counting with one item judged anew. -/
theorem countP_point {α : Type} {p q : α → Bool} {a : α} {l : List α} (hl : l.Nodup) (ha : a ∈ l)
    (hpq : ∀ b ∈ l, b ≠ a → q b = p b) : l.countP q + (p a).toNat = l.countP p + (q a).toNat := by
  induction l with
  | nil => cases ha
  | cons c l ih =>
    obtain ⟨hc, hl⟩ := List.nodup_cons.1 hl
    rw [List.countP_cons, List.countP_cons]
    rcases List.mem_cons.1 ha with rfl | ha
    · have hsame : l.countP q = l.countP p :=
        List.countP_congr fun b hb => by rw [hpq b (List.mem_cons_of_mem _ hb) fun h => hc (h ▸ hb)]
      rw [hsame]
      cases p a <;> cases q a <;> simp
    · have hca : c ≠ a := fun h => hc (h ▸ ha)
      rw [hpq c (List.mem_cons_self ..) hca]
      have := ih hl ha fun b hb => hpq b (List.mem_cons_of_mem _ hb)
      omega

section TreeCount

variable {N : Type} [Zero N] [DecidableEq N] {child : N → Nat → N} {w : Nat}

/-- How many nodes there are in a tree of depth `l`. -/
def treeCount (child : N → Nat → N) (w l : Nat) (b : N) : Nat := (paths w l).countP fun p => walk child b p ≠ 0

@[simp] theorem treeCount_null (l : Nat) : treeCount child w l (0 : N) = 0 := by
  simp [treeCount]

theorem treeCount_leaf {b : N} (hb : b ≠ 0) : treeCount child w 0 b = 1 := by
  simp [treeCount, paths, hb]

theorem treeCount_node {b : N} (hb : b ≠ 0) (l : Nat) :
    treeCount child w (l + 1) b = 1 + ((List.range w).map fun i => treeCount child w l (child b i)).sum := by
  unfold treeCount
  rw [paths, List.countP_cons, List.countP_flatMap, Nat.add_comm, walk_nil, if_pos (decide_eq_true hb)]
  congr 2
  apply List.map_congr_left
  intro i _
  rw [Function.comp_apply, List.countP_map]
  apply List.countP_congr
  intro p _
  simp only [Function.comp_apply, walk_cons hb]

end TreeCount

namespace Pointers

variable {K N : Type} [Zero N] [DecidableEq N] {T T' : Pointers K N} {w : Nat} {ks : List K}

/-- The spots of some roots. -/
def spots (T : Pointers K N) (w : Nat) (ks : List K) : List (K × List Nat) :=
  ks.flatMap fun k => (paths w (T.depth k)).map (Prod.mk k)

/-- How many nodes there are below some roots. -/
def count (T : Pointers K N) (w : Nat) (ks : List K) : Nat := (T.spots w ks).countP fun x => T.node x ≠ 0

omit [Zero N] [DecidableEq N] in
theorem mem_spots {x : K × List Nat} : x ∈ T.spots w ks ↔ x.1 ∈ ks ∧ T.Inside x ∧ ∀ i ∈ x.2, i < w := by
  obtain ⟨k, p⟩ := x
  simp only [spots, List.mem_flatMap, List.mem_map, mem_paths, Prod.mk.injEq, Inside]
  constructor
  · rintro ⟨_, hk, _, hp, rfl, rfl⟩
    exact ⟨hk, hp⟩
  · rintro ⟨hk, hp⟩
    exact ⟨k, hk, p, hp, rfl, rfl⟩

omit [Zero N] [DecidableEq N] in
theorem nodup_spots (hks : ks.Nodup) : (T.spots w ks).Nodup := by
  refine List.nodup_flatMap.2 ⟨fun k _ => (nodup_paths w _).map fun _ _ h => (Prod.mk.inj h).2, ?_⟩
  refine hks.pairwise_of_forall_ne fun k _ l _ hkl => ?_
  show List.Disjoint _ _
  rw [List.disjoint_left]
  intro x hx hy
  obtain ⟨p, -, rfl⟩ := List.mem_map.1 hx
  obtain ⟨q, -, hq⟩ := List.mem_map.1 hy
  exact hkl (Prod.mk.inj hq).1.symm

theorem count_eq_sum : T.count w ks = (ks.map fun k => treeCount T.child w (T.depth k) (T.root k)).sum := by
  unfold count spots
  rw [List.countP_flatMap]
  congr 1
  apply List.map_congr_left
  intro k _
  rw [Function.comp_apply, List.countP_map]
  rfl

/-- **One pointer more or less.** -/
theorem Points.count_eq [DecidableEq K] {y : K × List Nat} {v : N} (h : Points T T' y v) (hks : ks.Nodup)
    (hy : y ∈ T.spots w ks) :
    T'.count w ks + (if T.node y = 0 then 0 else 1) = T.count w ks + (if v = 0 then 0 else 1) := by
  have hspots : T'.spots w ks = T.spots w ks := by
    unfold spots
    rw [h.depth]
  have hcount := countP_point (p := fun x => decide (T.node x ≠ 0)) (q := fun x => decide (T'.node x ≠ 0))
    (nodup_spots hks) hy fun x hx hne => by rw [h.node_eq x (mem_spots.1 hx).2.1, if_neg hne]
  rw [h.node_eq y (mem_spots.1 hy).2.1, if_pos rfl] at hcount
  unfold count
  rw [hspots]
  by_cases h₀ : T.node y = 0 <;> by_cases hv : v = 0 <;> simp [h₀, hv] at hcount ⊢ <;> exact hcount

theorem count_congr (hdepth : T'.depth = T.depth) (h : ∀ x ∈ T.spots w ks, T'.node x = T.node x) :
    T'.count w ks = T.count w ks := by
  have hspots : T'.spots w ks = T.spots w ks := by
    unfold spots
    rw [hdepth]
  unfold count
  rw [hspots]
  exact List.countP_congr fun x hx => by rw [h x hx]

end Pointers

end Koros.Lib
