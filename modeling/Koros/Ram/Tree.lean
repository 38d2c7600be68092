import Koros.Lib.Forest
import Koros.Lib.Maps
import Koros.Ram.Inode

/-!
# The namespace of the in-memory filesystem

The directories that were created and not removed form a tree as long as no directory is renamed into itself or below
itself, which the code does not check.

- `RamFs.Inv`: the invariant of one filesystem, with the list of the directories that are gone;
- `Inv.enter`, `Inv.link`, `Inv.unlink`, `Inv.rmdir`, `Inv.rename`: what each call keeps;
- `State.step_inv`, `State.namespace_is_tree`: one call and a run of calls;
- `State.rename_into_itself`: two directories that hold each other, out of reach of the root.
-/
set_option autoImplicit false

namespace Koros.Ram

open Koros.Lib Koros.Vfs Relation

namespace RamFs

variable {f f' : RamFs} {d q x c i : Nat} {name oldName newName n : Str}

/-! ## What an edit changes -/

def parentOf (f : RamFs) (d : Nat) : Option Nat := (f.nodes d).bind Node.parent

@[simp] theorem next_update (g : Node → Node) : (f.update d g).next = f.next := rfl

theorem nodes_update (g : Node → Node) :
    (f.update d g).nodes x = if x = d then (f.nodes d).map g else f.nodes x := by
  by_cases hx : x = d
  · subst hx
    simp [update]
  · simp [update, hx]

/-- An edit of the entries or of the parent changes no file type. -/
@[simp] theorem isDir_update {g : Node → Node} (hg : ∀ n, (g n).fileType = n.fileType) :
    (f.update d g).isDir x = f.isDir x := by
  unfold isDir
  rw [nodes_update]
  split
  · rename_i hx
    subst hx
    cases f.nodes x <;> simp [Node.isDir, hg]
  · rfl

theorem entry_update (g : Node → Node) :
    (f.update d g).entry x n = if x = d then (f.nodes d).bind fun m => (g m).children[n]? else f.entry x n := by
  unfold entry
  rw [nodes_update]
  split
  · cases f.nodes d <;> rfl
  · rfl

theorem parentOf_update (g : Node → Node) :
    (f.update d g).parentOf x = if x = d then (f.nodes d).bind fun m => (g m).parent else f.parentOf x := by
  unfold parentOf
  rw [nodes_update]
  split
  · cases f.nodes d <;> rfl
  · rfl

/-- An edit of the entries changes no parent. -/
@[simp] theorem parentOf_update_of_eq {g : Node → Node} (hg : ∀ m, (g m).parent = m.parent) :
    (f.update d g).parentOf x = f.parentOf x := by
  rw [parentOf_update]
  split
  · rename_i hx
    subst hx
    simp only [hg]
    rfl
  · rfl

@[simp] theorem isSome_update (g : Node → Node) : ((f.update d g).nodes x).isSome = (f.nodes x).isSome := by
  rw [nodes_update]
  split
  · rename_i hx
    simp [hx]
  · rfl

theorem isSome_of_isDir (h : f.isDir d = true) : (f.nodes d).isSome = true := by
  unfold isDir at h
  cases hn : f.nodes d with
  | none => simp [hn] at h
  | some m => rfl

/-- An entry that is put in. -/
theorem entry_insert (hd : f.isDir d = true) :
    (f.update d fun m => { m with children := m.children.insert name c }).entry x n =
      if x = d ∧ n = name then some c else f.entry x n := by
  obtain ⟨m, hm⟩ := Option.isSome_iff_exists.1 (isSome_of_isDir hd)
  rw [entry_update]
  by_cases hx : x = d
  · subst hx
    simp [hm, entry]
  · simp [hx]

/-- An entry that is taken out. -/
theorem entry_erase :
    (f.update d fun m => { m with children := m.children.erase name }).entry x n =
      if x = d ∧ n = name then none else f.entry x n := by
  rw [entry_update]
  by_cases hx : x = d
  · subst hx
    cases hm : f.nodes x with
    | none => simp [entry, hm]
    | some m => simp [hm, entry]
  · simp [hx]

theorem entry_moveEntry (hd : f.isDir d = true) (hq : f.isDir q = true) :
    (f.moveEntry d oldName q newName c).entry x n =
      if x = q ∧ n = newName then some c else if x = d ∧ n = oldName then none else f.entry x n := by
  unfold moveEntry
  split
  · rename_i hdq
    rw [entry_erase, entry_insert hq]
    by_cases hxd : x = d ∧ n = oldName
    · simp [hxd, hdq]
    · simp [hxd]
  · rename_i hdq
    obtain rfl : d = q := not_not.1 hdq
    obtain ⟨m, hm⟩ := Option.isSome_iff_exists.1 (isSome_of_isDir hd)
    rw [entry_update]
    by_cases hx : x = d
    · subst hx
      simp [hm, entry]
    · simp [hx]

/-! ## Calls that succeed -/

theorem dirNode_ok {m : Node} (h : f.dirNode d = .ok m) : f.nodes d = some m ∧ f.isDir d = true := by
  unfold dirNode at h
  split at h
  · rename_i m' hm
    split at h
    · cases h
      exact ⟨hm, by simpa [isDir, hm]⟩
    · cases h
  · cases h

theorem entry_of_nodes {m : Node} (h : f.nodes d = some m) : m.children[name]? = f.entry d name := by simp [entry, h]

/-- The filesystem with a new node in it. -/
def withNew (f : RamFs) (d : Nat) (name : Str) (child : Node) : RamFs :=
  ⟨Function.update (f.update d fun m => { m with children := m.children.insert name f.next }).nodes f.next (some child),
    f.next + 1⟩

theorem enter_ok {child : Except FsError Node} {r : RamFs × Nat} (h : f.enter d name child = .ok r) :
    ∃ m, child = .ok m ∧ f.isDir d = true ∧ f.entry d name = none ∧ r = (f.withNew d name m, f.next) := by
  unfold enter at h
  cases hd : f.dirNode d with
  | error e => simp [hd, bind, Except.bind] at h
  | ok n =>
    obtain ⟨hn, hdir⟩ := dirNode_ok hd
    cases child with
    | error e =>
      simp only [hd, bind, Except.bind] at h
      split at h <;> cases h
    | ok m =>
      simp only [hd, bind, Except.bind] at h
      split at h
      · cases h
      · rename_i hfree
        refine ⟨m, rfl, hdir, ?_, ?_⟩
        · rw [← entry_of_nodes hn]
          exact (not_contains_iff _ _).1 (Bool.eq_false_iff.2 hfree)
        · cases h
          rfl

theorem link_ok {target : Nat} (h : f.link d name target = .ok f') :
    f.isDir d = true ∧ f.isDir target = false ∧ (f.nodes target).isSome = true ∧ f.entry d name = none ∧
      f' = f.update d fun m => { m with children := m.children.insert name target } := by
  unfold link at h
  cases hd : f.dirNode d with
  | error e => simp [hd, bind, Except.bind] at h
  | ok n =>
    obtain ⟨hn, hdir⟩ := dirNode_ok hd
    simp only [hd, bind, Except.bind] at h
    split at h
    · cases h
    rename_i hfile
    split at h
    · cases h
    rename_i hsome
    split at h
    · cases h
    rename_i hfree
    cases h
    refine ⟨hdir, by simpa using hfile, ?_, ?_, rfl⟩
    · cases hnode : f.nodes target with
      | none => simp [hnode] at hsome
      | some m => rfl
    · rw [← entry_of_nodes hn]
      exact (not_contains_iff _ _).1 (Bool.eq_false_iff.2 hfree)

theorem unlink_ok (h : f.unlink d name = .ok f') :
    f.isDir d = true ∧ (∃ c, f.entry d name = some c ∧ f.isDir c = false) ∧
      f' = f.update d fun m => { m with children := m.children.erase name } := by
  unfold unlink at h
  cases hd : f.dirNode d with
  | error e => simp [hd, bind, Except.bind] at h
  | ok n =>
    obtain ⟨hn, hdir⟩ := dirNode_ok hd
    simp only [hd, bind, Except.bind, entry_of_nodes hn] at h
    split at h
    · cases h
    rename_i c hc
    split at h
    · cases h
    rename_i hfile
    cases h
    exact ⟨hdir, ⟨c, hc, by simpa using hfile⟩, rfl⟩

theorem rmdir_ok (h : f.rmdir d name = .ok f') :
    f.isDir d = true ∧ (∃ c, f.entry d name = some c ∧ f.isDir c = true ∧ f.occupied c = false) ∧
      f' = f.update d fun m => { m with children := m.children.erase name } := by
  unfold rmdir at h
  cases hd : f.dirNode d with
  | error e => simp [hd, bind, Except.bind] at h
  | ok n =>
    obtain ⟨hn, hdir⟩ := dirNode_ok hd
    simp only [hd, bind, Except.bind, entry_of_nodes hn] at h
    split at h
    · cases h
    rename_i c hc
    split at h
    · cases h
    rename_i hcdir
    split at h
    · cases h
    rename_i hempty
    cases h
    exact ⟨hdir, ⟨c, hc, by simpa using hcdir, by simpa using hempty⟩, rfl⟩

/-- The filesystem after the move of `c`. -/
def renamed (f : RamFs) (d : Nat) (oldName : Str) (q : Nat) (newName : Str) (c : Nat) : RamFs :=
  if f.isDir c then (f.moveEntry d oldName q newName c).update c fun m => { m with parent := some q }
  else f.moveEntry d oldName q newName c

theorem rename_ok (h : f.rename d oldName q newName = .ok f') :
    f.isDir d = true ∧ f.isDir q = true ∧
      (∀ e, f.entry q newName = some e → f.isDir e = true → f.occupied e = false) ∧
      ∃ c, f.entry d oldName = some c ∧ f' = f.renamed d oldName q newName c := by
  unfold rename at h
  cases hd : f.dirNode d with
  | error e => simp [hd, bind, Except.bind] at h
  | ok n =>
    cases hq : f.dirNode q with
    | error e => simp [hd, hq, bind, Except.bind] at h
    | ok m =>
      obtain ⟨hn, hddir⟩ := dirNode_ok hd
      obtain ⟨hm, hqdir⟩ := dirNode_ok hq
      simp only [hd, hq, bind, Except.bind, entry_of_nodes hn, entry_of_nodes hm] at h
      split at h
      · cases h
      rename_i c hc
      split at h
      · cases h
      rename_i hfree
      cases h
      refine ⟨hddir, hqdir, ?_, c, hc, rfl⟩
      intro e he hedir
      simpa [he, hedir] using hfree

/-! ## The invariant -/

/-- `p` holds the directory `c`. -/
def Holds (f : RamFs) (p c : Nat) : Prop := f.isDir c = true ∧ ∃ n, f.entry p n = some c

/-- `d` is the root or below it. -/
def Reached (f : RamFs) (d : Nat) : Prop := ReflTransGen f.Holds root d

/-- The directories are a tree, apart from those that are gone. -/
structure Inv (f : RamFs) (gone : List Nat) : Prop where
  root_dir : f.isDir root = true
  root_kept : root ∉ gone
  root_free : ∀ p n, f.entry p n ≠ some root
  fresh : ∀ i, f.next ≤ i → f.nodes i = none
  entry_node : ∀ p n c, f.entry p n = some c → (f.nodes c).isSome = true
  one : ∀ p n p' n' c, f.isDir c = true → f.entry p n = some c → f.entry p' n' = some c → p = p' ∧ n = n'
  parent : ∀ p n c, f.isDir c = true → f.entry p n = some c → f.parentOf c = some p
  gone_dir : ∀ d ∈ gone, f.isDir d = true
  gone_empty : ∀ d ∈ gone, ∀ n, f.entry d n = none
  gone_free : ∀ d ∈ gone, ∀ p n, f.entry p n ≠ some d
  reached : ∀ d, f.isDir d = true → d ∉ gone → f.Reached d

namespace Inv

variable {gone : List Nat}

theorem acyclic (h : f.Inv gone) : ¬TransGen f.Holds d d := by
  intro hcycle
  have hdir : f.isDir d = true := by
    obtain ⟨p, -, hp⟩ := TransGen.tail'_iff.1 hcycle
    exact hp.1
  have hkept : d ∉ gone := by
    intro hgone
    obtain ⟨p, hp, -⟩ := TransGen.head'_iff.1 hcycle
    obtain ⟨n, hn⟩ := hp.2
    simp [h.gone_empty d hgone n] at hn
  refine acyclic_of_reach ?_ ?_ (h.reached d hdir hkept) hcycle
  · rintro p ⟨-, n, hn⟩
    exact h.root_free p n hn
  · rintro p p' y ⟨hy, n, hn⟩ ⟨-, n', hn'⟩
    exact (h.one p n p' n' y hy hn hn').1

theorem kept_of_reached (h : f.Inv gone) (hd : f.Reached d) : d ∉ gone := by
  intro hgone
  rcases ReflTransGen.cases_tail hd with heq | ⟨p, -, -, n, hn⟩
  · exact h.root_kept (heq ▸ hgone)
  · exact h.gone_free d hgone p n hn

theorem lt_next (h : f.Inv gone) (hn : (f.nodes i).isSome = true) : i < f.next := by
  by_contra hle
  simp [h.fresh i (by omega)] at hn

theorem entry_ne_next (h : f.Inv gone) : f.entry x n ≠ some f.next := by
  intro hn
  exact absurd (h.lt_next (h.entry_node x n _ hn)) (Nat.lt_irrefl _)

/-- Edits that touch no entry of a directory. -/
theorem of_files (h : f.Inv gone) (hsome : ∀ i, (f'.nodes i).isSome = (f.nodes i).isSome) (hnext : f'.next = f.next)
    (hdir : ∀ i, f'.isDir i = f.isDir i) (hparent : ∀ i, f'.parentOf i = f.parentOf i)
    (hentry : ∀ p n c, f.isDir c = true → (f'.entry p n = some c ↔ f.entry p n = some c))
    (hnode : ∀ p n c, f'.entry p n = some c → (f.nodes c).isSome = true)
    (hgone : ∀ d ∈ gone, ∀ n, f'.entry d n = none) : f'.Inv gone := by
  have hholds : f'.Holds = f.Holds := by
    funext p c
    unfold Holds
    rw [hdir]
    refine propext (and_congr_right fun hc => exists_congr fun n => hentry p n c hc)
  refine ⟨(hdir _).trans h.root_dir, h.root_kept, ?_, ?_, ?_, ?_, ?_,
    fun d hd => (hdir d).trans (h.gone_dir d hd), hgone, ?_, ?_⟩
  · intro p n hn
    exact h.root_free p n ((hentry p n root h.root_dir).1 hn)
  · intro i hi
    have := hsome i
    rw [h.fresh i (hnext ▸ hi)] at this
    simpa using this
  · intro p n c hn
    rw [hsome]
    exact hnode p n c hn
  · intro p n p' n' c hc hn hn'
    rw [hdir] at hc
    exact h.one p n p' n' c hc ((hentry p n c hc).1 hn) ((hentry p' n' c hc).1 hn')
  · intro p n c hc hn
    rw [hdir] at hc
    rw [hparent]
    exact h.parent p n c hc ((hentry p n c hc).1 hn)
  · intro d hd p n hn
    exact h.gone_free d hd p n ((hentry p n d (h.gone_dir d hd)).1 hn)
  · intro d hd hkept
    unfold Reached
    rw [hholds]
    exact h.reached d ((hdir d).symm.trans hd) hkept

/-! ## One call -/

theorem link {target : Nat} (h : f.Inv gone) (hd : f.Reached d) (hs : f.link d name target = .ok f') : f'.Inv gone := by
  obtain ⟨hdir, hfile, hnode, hfree, rfl⟩ := link_ok hs
  refine h.of_files (fun i => isSome_update _) rfl (fun i => isDir_update fun _ => rfl)
    (fun i => parentOf_update_of_eq fun _ => rfl) ?_ ?_ ?_
  · intro p n c hc
    rw [entry_insert hdir]
    split
    · rename_i hslot
      obtain ⟨rfl, rfl⟩ := hslot
      simp only [hfree, Option.some.injEq, reduceCtorEq, iff_false]
      rintro rfl
      simp [hfile] at hc
    · rfl
  · intro p n c hn
    rw [entry_insert hdir] at hn
    split at hn
    · cases hn
      exact hnode
    · exact h.entry_node p n c hn
  · intro x hx n
    have hne : x ≠ d := fun heq => h.kept_of_reached hd (heq ▸ hx)
    simpa [entry_insert hdir, hne] using h.gone_empty x hx n

theorem unlink (h : f.Inv gone) (hs : f.unlink d name = .ok f') : f'.Inv gone := by
  obtain ⟨hdir, ⟨c₀, hc₀, hfile⟩, rfl⟩ := unlink_ok hs
  refine h.of_files (fun i => isSome_update _) rfl (fun i => isDir_update fun _ => rfl)
    (fun i => parentOf_update_of_eq fun _ => rfl) ?_ ?_ ?_
  · intro p n c hc
    rw [entry_erase]
    split
    · rename_i hslot
      obtain ⟨rfl, rfl⟩ := hslot
      simp only [hc₀, Option.some.injEq, reduceCtorEq, false_iff]
      rintro rfl
      simp [hfile] at hc
    · rfl
  · intro p n c hn
    rw [entry_erase] at hn
    split at hn
    · cases hn
    · exact h.entry_node p n c hn
  · intro x hx n
    rw [entry_erase, h.gone_empty x hx n]
    simp

section WithNew

variable {child : Node}

theorem nodes_withNew : (f.withNew d name child).nodes x =
    if x = f.next then some child
    else (f.update d fun m => { m with children := m.children.insert name f.next }).nodes x := by
  by_cases hx : x = f.next
  · subst hx
    simp [withNew]
  · simp [withNew, hx]

theorem isDir_withNew : (f.withNew d name child).isDir x = if x = f.next then child.isDir else f.isDir x := by
  unfold isDir
  rw [nodes_withNew]
  split
  · simp
  · exact isDir_update fun _ => rfl

theorem parentOf_withNew : (f.withNew d name child).parentOf x = if x = f.next then child.parent else f.parentOf x := by
  unfold parentOf
  rw [nodes_withNew]
  split
  · simp
  · exact parentOf_update_of_eq fun _ => rfl

theorem entry_withNew (h : f.Inv gone) (hdir : f.isDir d = true) (hchild : child.children = ∅) :
    (f.withNew d name child).entry x n = if x = d ∧ n = name then some f.next else f.entry x n := by
  have hlt : d < f.next := h.lt_next (isSome_of_isDir hdir)
  unfold entry
  rw [nodes_withNew]
  split
  · rename_i hx
    have hne : x ≠ d := by omega
    subst hx
    simp [hchild, hne, h.fresh f.next (Nat.le_refl _)]
  · exact entry_insert hdir

/-- A new node keeps the tree. -/
theorem enter (h : f.Inv gone) (hd : f.Reached d) (hdir : f.isDir d = true) (hfree : f.entry d name = none)
    (hchild : child.children = ∅) (hparent : child.parent = some d) : (f.withNew d name child).Inv gone := by
  have hlt : ∀ i, f.isDir i = true → i ≠ f.next := fun i hi =>
    Nat.ne_of_lt (h.lt_next (isSome_of_isDir hi))
  have hentry : ∀ x n, (f.withNew d name child).entry x n = if x = d ∧ n = name then some f.next else f.entry x n :=
    fun x n => h.entry_withNew hdir hchild
  have hold : ∀ x n c, f.entry x n = some c → (f.withNew d name child).entry x n = some c := by
    intro x n c hc
    rw [hentry, if_neg ?_, hc]
    rintro ⟨rfl, rfl⟩
    simp [hfree] at hc
  have hnew : ∀ x n c, c ≠ f.next → (f.withNew d name child).entry x n = some c → f.entry x n = some c := by
    intro x n c hc hn
    rw [hentry] at hn
    split at hn
    · exact absurd (Option.some.inj hn).symm hc
    · exact hn
  have hnext : ∀ x n, (f.withNew d name child).entry x n = some f.next → x = d ∧ n = name := by
    intro x n hn
    rw [hentry] at hn
    split at hn
    · assumption
    · exact absurd hn h.entry_ne_next
  have hholds : ∀ p c, f.Holds p c → (f.withNew d name child).Holds p c := by
    rintro p c ⟨hc, n, hn⟩
    exact ⟨by rw [isDir_withNew, if_neg (hlt c hc)]; exact hc, n, hold p n c hn⟩
  have hreach : ∀ x, f.Reached x → (f.withNew d name child).Reached x := fun x hx =>
    ReflTransGen.mono hholds _ _ hx
  have hkept : ∀ x ∈ gone, x ≠ f.next := fun x hx => hlt x (h.gone_dir x hx)
  constructor
  · rw [isDir_withNew, if_neg (hlt _ h.root_dir)]
    exact h.root_dir
  · exact h.root_kept
  · exact fun p n hn => h.root_free p n (hnew p n _ (hlt _ h.root_dir) hn)
  · intro i hi
    have hi : f.next + 1 ≤ i := hi
    have hnone : f.nodes i = none := h.fresh i (by omega)
    have hne : i ≠ d := Nat.ne_of_gt (Nat.lt_of_lt_of_le (h.lt_next (isSome_of_isDir hdir)) (by omega))
    rw [nodes_withNew, if_neg (by omega), nodes_update, if_neg hne, hnone]
  · intro p n c hn
    rw [nodes_withNew]
    split
    · rfl
    · rename_i hc
      rw [isSome_update]
      exact h.entry_node p n c (hnew p n c hc hn)
  · intro p n p' n' c hc hn hn'
    by_cases hcn : c = f.next
    · subst hcn
      obtain ⟨rfl, rfl⟩ := hnext p n hn
      obtain ⟨rfl, rfl⟩ := hnext p' n' hn'
      exact ⟨rfl, rfl⟩
    · rw [isDir_withNew, if_neg hcn] at hc
      exact h.one p n p' n' c hc (hnew p n c hcn hn) (hnew p' n' c hcn hn')
  · intro p n c hc hn
    rw [parentOf_withNew]
    by_cases hcn : c = f.next
    · subst hcn
      rw [if_pos rfl, hparent, (hnext p n hn).1]
    · rw [isDir_withNew, if_neg hcn] at hc
      rw [if_neg hcn]
      exact h.parent p n c hc (hnew p n c hcn hn)
  · intro x hx
    rw [isDir_withNew, if_neg (hkept x hx)]
    exact h.gone_dir x hx
  · intro x hx n
    have hne : x ≠ d := fun heq => h.kept_of_reached hd (heq ▸ hx)
    rw [hentry, if_neg fun hslot => hne hslot.1]
    exact h.gone_empty x hx n
  · exact fun x hx p n hn => h.gone_free x hx p n (hnew p n x (hkept x hx) hn)
  · intro x hx hgone
    by_cases hxn : x = f.next
    · subst hxn
      refine (hreach d hd).tail ⟨hx, name, ?_⟩
      simp [hentry]
    · rw [isDir_withNew, if_neg hxn] at hx
      exact hreach x (h.reached x hx hgone)

end WithNew

theorem entry_of_not_occupied (hc : f.occupied c = false) : f.entry c n = none := by
  unfold occupied at hc
  unfold entry
  cases hm : f.nodes c with
  | none => rfl
  | some m =>
    have hempty : m.children.isEmpty = true := by simpa [hm] using hc
    simp [Std.TreeMap.getElem?_of_isEmpty hempty]

theorem rmdir (h : f.Inv gone) (hs : f.rmdir d name = .ok f') (hc : f.entry d name = some c) : f'.Inv (c :: gone) := by
  obtain ⟨hdir, ⟨c', hc', hcdir, hempty⟩, rfl⟩ := rmdir_ok hs
  obtain rfl : c = c' := Option.some.inj (hc.symm.trans hc')
  have hentry : ∀ x n y, (f.update d fun m => { m with children := m.children.erase name }).entry x n = some y →
      f.entry x n = some y ∧ ¬(x = d ∧ n = name) := by
    intro x n y hn
    rw [entry_erase] at hn
    split at hn
    · cases hn
    · exact ⟨hn, ‹_›⟩
  have hdirs : ∀ i, (f.update d fun m => { m with children := m.children.erase name }).isDir i = f.isDir i :=
    fun i => isDir_update fun _ => rfl
  constructor
  · exact (hdirs _).trans h.root_dir
  · simp only [List.mem_cons, not_or]
    exact ⟨fun heq => h.root_free d name (heq ▸ hc), h.root_kept⟩
  · exact fun p n hn => h.root_free p n (hentry p n _ hn).1
  · intro i hi
    have hnone := h.fresh i hi
    rw [nodes_update]
    split
    · rename_i hi
      simp [← hi, hnone]
    · exact hnone
  · intro p n y hn
    rw [isSome_update]
    exact h.entry_node p n y (hentry p n y hn).1
  · intro p n p' n' y hy hn hn'
    rw [hdirs] at hy
    exact h.one p n p' n' y hy (hentry p n y hn).1 (hentry p' n' y hn').1
  · intro p n y hy hn
    rw [hdirs] at hy
    simpa using h.parent p n y hy (hentry p n y hn).1
  · intro x hx
    rw [hdirs]
    rcases List.mem_cons.1 hx with rfl | hx
    · exact hcdir
    · exact h.gone_dir x hx
  · intro x hx n
    have hnone : f.entry x n = none := by
      rcases List.mem_cons.1 hx with rfl | hx
      · exact entry_of_not_occupied hempty
      · exact h.gone_empty x hx n
    rw [entry_erase, hnone]
    simp
  · intro x hx p n hn
    obtain ⟨hn, hslot⟩ := hentry p n x hn
    rcases List.mem_cons.1 hx with rfl | hx
    · exact hslot (h.one p n d name _ hcdir hn hc)
    · exact h.gone_free x hx p n hn
  · intro x hx hgone
    rw [hdirs] at hx
    simp only [List.mem_cons, not_or] at hgone
    refine reach_of_leaves_gone (· = c) ?_ ?_ (h.reached x hx hgone.2) hgone.1
    · rintro y z rfl ⟨-, n, hn⟩
      simp [entry_of_not_occupied hempty] at hn
    · rintro y z ⟨hz, n, hn⟩ hzc
      refine ⟨(hdirs z).trans hz, n, ?_⟩
      rw [entry_erase, if_neg ?_, hn]
      rintro ⟨rfl, rfl⟩
      exact hzc (Option.some.inj (hn.symm.trans hc))

/-! ## Rename -/

theorem isDir_moveEntry : (f.moveEntry d oldName q newName c).isDir x = f.isDir x := by
  unfold moveEntry
  split <;> simp

theorem isSome_moveEntry : ((f.moveEntry d oldName q newName c).nodes x).isSome = (f.nodes x).isSome := by
  unfold moveEntry
  split <;> simp

theorem parentOf_moveEntry : (f.moveEntry d oldName q newName c).parentOf x = f.parentOf x := by
  unfold moveEntry
  split <;> simp

theorem next_moveEntry : (f.moveEntry d oldName q newName c).next = f.next := by
  unfold moveEntry
  split <;> rfl

/-- What a rename makes of the filesystem. -/
theorem renamed_view (oldName newName : Str) (c : Nat) (hd : f.isDir d = true) (hq : f.isDir q = true) :
    (∀ x, (f.renamed d oldName q newName c).isDir x = f.isDir x) ∧
    (∀ x, ((f.renamed d oldName q newName c).nodes x).isSome = (f.nodes x).isSome) ∧
    (f.renamed d oldName q newName c).next = f.next ∧
    (∀ x, f.isDir x = true → (f.renamed d oldName q newName c).parentOf x = if x = c then some q else f.parentOf x) ∧
    ∀ x n, (f.renamed d oldName q newName c).entry x n =
      if x = q ∧ n = newName then some c else if x = d ∧ n = oldName then none else f.entry x n := by
  unfold renamed
  split
  · rename_i hc
    refine ⟨?_, ?_, next_moveEntry, ?_, ?_⟩
    · simp [isDir_moveEntry]
    · simp [isSome_moveEntry]
    · intro x _
      rw [parentOf_update, parentOf_moveEntry]
      split
      · obtain ⟨m, hm⟩ := Option.isSome_iff_exists.1 (isSome_moveEntry.trans (isSome_of_isDir hc))
        rw [hm]
        rfl
      · rfl
    · intro x n
      rw [← entry_moveEntry hd hq, entry_update]
      split
      · rename_i hx
        rw [hx]
        rfl
      · rfl
  · rename_i hc
    refine ⟨fun _ => isDir_moveEntry, fun _ => isSome_moveEntry, next_moveEntry, ?_, fun _ _ => entry_moveEntry hd hq⟩
    intro x hx
    rw [parentOf_moveEntry, if_neg (by rintro rfl; exact hc hx)]

/-- The directory that a rename of `c` replaces. -/
def Replaced (f : RamFs) (q : Nat) (newName : Str) (c x : Nat) : Prop :=
  f.isDir x = true ∧ f.entry q newName = some x ∧ x ≠ c

theorem rename {gone' : List Nat} (h : f.Inv gone) (hq : f.Reached q) (hs : f.rename d oldName q newName = .ok f')
    (hc : f.entry d oldName = some c) (hbelow : f.isDir c = true → ¬ReflTransGen f.Holds c q)
    (hgone' : ∀ x, x ∈ gone' ↔ Replaced f q newName c x ∨ x ∈ gone) : f'.Inv gone' := by
  obtain ⟨hddir, hqdir, hempty, c', hc', rfl⟩ := rename_ok hs
  obtain rfl : c = c' := Option.some.inj (hc.symm.trans hc')
  obtain ⟨hdirs, hsome, hnext, hparent, hentry⟩ := renamed_view oldName newName c hddir hqdir
  -- After the rename `c` is held in its new place only, and other directories that are left where they were.
  have hslot : ∀ x n y, f.isDir y = true → (f.renamed d oldName q newName c).entry x n = some y →
      (y = c ∧ x = q ∧ n = newName) ∨ (y ≠ c ∧ f.entry x n = some y ∧ ¬(x = q ∧ n = newName)) := by
    intro x n y hy hn
    rw [hentry] at hn
    split at hn
    · rename_i hslot
      exact .inl ⟨(Option.some.inj hn).symm, hslot⟩
    · rename_i hnot
      split at hn
      · cases hn
      · rename_i hold
        refine .inr ⟨?_, hn, hnot⟩
        rintro rfl
        exact hold (h.one x n d oldName _ hy hn hc)
  have hleaf : ∀ x, Replaced f q newName c x → ∀ n, f.entry x n = none := fun x hx n =>
    entry_of_not_occupied (hempty x hx.2.1 hx.1)
  have hkeep : ∀ x n y, f.entry x n = some y → f.isDir y = true → y ≠ c → ¬Replaced f q newName c y →
      (f.renamed d oldName q newName c).entry x n = some y := by
    intro x n y hn hy hyc hrep
    rw [hentry, if_neg ?_, if_neg ?_, hn]
    · rintro ⟨rfl, rfl⟩
      exact hyc (Option.some.inj (hn.symm.trans hc))
    · rintro ⟨rfl, rfl⟩
      exact hrep ⟨hy, hn, hyc⟩
  have hqkept : ¬Replaced f q newName c q := fun hrep => by
    simpa [hleaf q hrep] using hrep.2.1
  have hcgone : c ∉ gone' := by
    rw [hgone', not_or]
    exact ⟨fun hrep => hrep.2.2 rfl, fun hg => h.gone_free c hg d oldName hc⟩
  have hcheld : (f.renamed d oldName q newName c).entry q newName = some c := by simp [hentry]
  constructor
  · rw [hdirs]
    exact h.root_dir
  · rw [hgone', not_or]
    exact ⟨fun hrep => h.root_free _ _ hrep.2.1, h.root_kept⟩
  · intro p n hn
    rcases hslot p n _ h.root_dir hn with ⟨heq, -⟩ | ⟨-, hn, -⟩
    · exact h.root_free d oldName (heq ▸ hc)
    · exact h.root_free p n hn
  · intro i hi
    have := hsome i
    rw [h.fresh i (hnext ▸ hi)] at this
    simpa using this
  · intro p n y hn
    rw [hsome]
    rw [hentry] at hn
    split at hn
    · cases hn
      exact h.entry_node d oldName _ hc
    split at hn
    · cases hn
    · exact h.entry_node p n y hn
  · intro p n p' n' y hy hn hn'
    rw [hdirs] at hy
    rcases hslot p n y hy hn with ⟨hyc, rfl, rfl⟩ | ⟨hyc, hn, -⟩
    · rcases hslot p' n' y hy hn' with ⟨-, rfl, rfl⟩ | ⟨hyc', -⟩
      · exact ⟨rfl, rfl⟩
      · exact absurd hyc hyc'
    · rcases hslot p' n' y hy hn' with ⟨hyc', -⟩ | ⟨-, hn', -⟩
      · exact absurd hyc' hyc
      · exact h.one p n p' n' y hy hn hn'
  · intro p n y hy hn
    rw [hdirs] at hy
    rw [hparent y hy]
    rcases hslot p n y hy hn with ⟨rfl, rfl, -⟩ | ⟨hyc, hn, -⟩
    · simp
    · rw [if_neg hyc]
      exact h.parent p n y hy hn
  · intro x hx
    rw [hdirs]
    rcases (hgone' x).1 hx with hrep | hx
    · exact hrep.1
    · exact h.gone_dir x hx
  · intro x hx n
    have hnone : f.entry x n = none := by
      rcases (hgone' x).1 hx with hrep | hx
      · exact hleaf x hrep n
      · exact h.gone_empty x hx n
    have hne : ¬(x = q ∧ n = newName) := by
      rintro ⟨rfl, rfl⟩
      rcases (hgone' x).1 hx with hrep | hx
      · exact hqkept hrep
      · exact h.kept_of_reached hq hx
    simp [hentry, hne, hnone]
  · intro x hx p n hn
    have hxdir : f.isDir x = true := by
      rcases (hgone' x).1 hx with hrep | hx
      · exact hrep.1
      · exact h.gone_dir x hx
    rcases hslot p n x hxdir hn with ⟨rfl, -⟩ | ⟨hxc, hn, hnot⟩
    · exact hcgone hx
    · rcases (hgone' x).1 hx with hrep | hx
      · exact hnot (h.one p n q newName x hxdir hn hrep.2.1)
      · exact h.gone_free x hx p n hn
  · intro x hx hxgone
    rw [hdirs] at hx
    rw [hgone', not_or] at hxgone
    -- First the directory that is replaced goes away, then `c` moves.
    let left : Nat → Nat → Prop := fun y z => f.Holds y z ∧ ¬Replaced f q newName c z
    have hleft : ∀ y, f.Reached y → ¬Replaced f q newName c y → ReflTransGen left root y := by
      intro y hy hrep
      refine reach_of_leaves_gone (Replaced f q newName c) ?_ (fun y z hyz hz => ⟨hyz, hz⟩) hy hrep
      rintro y z hy ⟨-, n, hn⟩
      simp [hleaf y hy n] at hn
    have hsub : ∀ y z, left y z → f.Holds y z := fun _ _ => And.left
    have hmoved : ∀ y z, left y z → z ≠ c → (f.renamed d oldName q newName c).Holds y z := by
      rintro y z ⟨⟨hz, n, hn⟩, hrep⟩ hzc
      exact ⟨(hdirs z).trans hz, n, hkeep y n z hn hz hzc hrep⟩
    have hxleft : ReflTransGen left root x := hleft x (h.reached x hx hxgone.2) hxgone.1
    by_cases hcdir : f.isDir c = true
    · exact reach_of_rehang (fun hcycle => h.acyclic (TransGen.mono hsub _ _ hcycle))
        (fun hcq => hbelow hcdir (ReflTransGen.mono hsub _ _ hcq)) hmoved ⟨(hdirs c).trans hcdir, newName, hcheld⟩
        (hleft q hq hqkept) hxleft
    · refine ReflTransGen.mono ?_ _ _ hxleft
      exact fun y z hyz => hmoved y z hyz fun heq => hcdir (heq ▸ hyz.1.1)

end Inv

end RamFs

/-! ## Runs -/

namespace State

variable {s s' : State} {c : Call}

/-- A directory that was created and neither removed nor replaced. -/
def Live (s : State) (d : Nat) : Prop := s.fs.isDir d = true ∧ d ∉ s.gone

/-- The namespace is a tree. -/
structure Tree (s : State) : Prop where
  reached : ∀ d, s.Live d → s.fs.Reached d
  single : ∀ d, s.Live d → d ≠ RamFs.root → ∃! e : Nat × Str, s.fs.entry e.1 e.2 = some d
  dotdot : ∀ d p n, s.Live d → s.fs.entry p n = some d → s.fs.lookup d ['.', '.'] = .ok p
  acyclic : ∀ d, ¬TransGen s.fs.Holds d d

/-- The call is made through handles that are reachable from the root. -/
def Handles (s : State) (c : Call) : Prop := ∀ d ∈ c.handles, s.fs.Reached d

/-- The call does not move a directory into itself or below itself. -/
def MovesOutside (s : State) : Call → Prop
  | .rename d oldName q _ => ∀ c, s.fs.entry d oldName = some c → s.fs.isDir c = true → ¬ReflTransGen s.fs.Holds c q
  | _ => True

theorem tree_of_inv (h : s.fs.Inv s.gone) : s.Tree := by
  refine ⟨fun d hd => h.reached d hd.1 hd.2, ?_, ?_, fun d => h.acyclic⟩
  · intro d hd hroot
    rcases ReflTransGen.cases_tail (h.reached d hd.1 hd.2) with heq | ⟨p, -, -, n, hn⟩
    · exact absurd heq hroot
    · refine ⟨(p, n), hn, ?_⟩
      rintro ⟨p', n'⟩ hn'
      obtain ⟨rfl, rfl⟩ := h.one p' n' p n d hd.1 hn' hn
      rfl
  · intro d p n hd hn
    have hparent := h.parent p n d hd.1 hn
    obtain ⟨m, hm, hmp⟩ := Option.bind_eq_some_iff.1 hparent
    have hdir : m.isDir = true := by simpa [RamFs.isDir, hm] using hd.1
    simp [RamFs.lookup, RamFs.dirNode, hm, hdir, hmp, bind, Except.bind, pure, Except.pure]

theorem boot_inv : boot.fs.Inv boot.gone := by
  have hentry : ∀ p n, boot.fs.entry p n = none := by
    intro p n
    by_cases hp : p = RamFs.root <;> simp [boot, RamFs.new, RamFs.entry, Node.newDir, hp]
  refine ⟨rfl, by simp [boot], ?_, ?_, ?_, ?_, ?_, by simp [boot], by simp [boot], by simp [boot], ?_⟩
  · simp [hentry]
  · intro i hi
    have : 1 ≤ i := hi
    have hne : i ≠ RamFs.root := by
      unfold RamFs.root
      omega
    simp [boot, RamFs.new, hne]
  · simp [hentry]
  · simp [hentry]
  · simp [hentry]
  · intro d hd _
    by_cases hdr : d = RamFs.root
    · rw [hdr]
      exact .refl
    · simp [boot, RamFs.new, RamFs.isDir, hdr] at hd

/-- A new node of any kind. -/
theorem inv_enter {d : Nat} {name : Str} {child : Except FsError Node} (h : s.fs.Inv s.gone) (hd : s.fs.Reached d)
    (hchild : ∀ m, child = .ok m → m.children = ∅ ∧ m.parent = some d) :
    RamFs.Inv (((s.fs.enter d name child).toOption.map Prod.fst).getD s.fs) s.gone := by
  cases hr : s.fs.enter d name child with
  | error e => exact h
  | ok r =>
    obtain ⟨m, hm, hdir, hfree, rfl⟩ := RamFs.enter_ok hr
    exact h.enter hd hdir hfree (hchild m hm).1 (hchild m hm).2

theorem step_inv (h : s.fs.Inv s.gone) (hh : s.Handles c) (ho : s.MovesOutside c) (hs : s.step c = some s') :
    s'.fs.Inv s'.gone := by
  unfold step at hs
  split at hs
  · cases hs
  cases hs
  cases c with
  | create d name fileType =>
    refine inv_enter h (hh d (by simp [Call.handles])) ?_
    intro m hm
    cases fileType <;> cases hm <;> exact ⟨rfl, rfl⟩
  | mkdir d name =>
    refine inv_enter h (hh d (by simp [Call.handles])) ?_
    intro m hm
    cases hm
    exact ⟨rfl, rfl⟩
  | symlink d name =>
    refine inv_enter h (hh d (by simp [Call.handles])) ?_
    intro m hm
    cases hm
    exact ⟨rfl, rfl⟩
  | link d name target =>
    simp only [apply, removes]
    cases hr : s.fs.link d name target with
    | error e => exact h
    | ok f' => exact h.link (hh d (by simp [Call.handles])) hr
  | unlink d name =>
    simp only [apply, removes]
    cases hr : s.fs.unlink d name with
    | error e => exact h
    | ok f' => exact h.unlink hr
  | rmdir d name =>
    simp only [apply, removes]
    cases hr : s.fs.rmdir d name with
    | error e => exact h
    | ok f' =>
      obtain ⟨-, ⟨c, hc, -⟩, -⟩ := RamFs.rmdir_ok hr
      simpa [hc, Except.isOk, Except.toBool, Except.toOption] using h.rmdir hr hc
  | rename d oldName q newName =>
    simp only [apply, removes]
    cases hr : s.fs.rename d oldName q newName with
    | error e => exact h
    | ok f' =>
      obtain ⟨-, -, -, c, hc, -⟩ := RamFs.rename_ok hr
      refine h.rename (hh q (by simp [Call.handles])) hr hc (ho c hc) ?_
      intro x
      simp only [Except.isOk, Except.toBool, hc, RamFs.Inv.Replaced, List.mem_append, Option.mem_toList,
        Option.filter_eq_some_iff, if_true, Bool.and_eq_true, bne_iff_ne, ne_eq, Option.some.injEq]
      tauto

/-- **In every run of calls that move no directory into itself or below itself, the namespace is a tree.** -/
theorem namespace_is_tree (cs : List Call) (hcs : Meets step (fun s c => s.Handles c ∧ s.MovesOutside c) boot cs) :
    Visits step Tree boot cs :=
  (Visits.of_step (fun _ _ _ h hok hs => step_inv h hok.1 hok.2 hs) boot_inv hcs).imp fun _ => tree_of_inv

/-- Two directories in the root, and one moves into the other. -/
def intoOther : List Call := [.mkdir 0 ['a'], .mkdir 0 ['b'], .rename 0 ['a'] 2 ['c']]

theorem namespace_is_tree_intoOther :
    Meets step (fun s c => s.Handles c ∧ s.MovesOutside c) boot intoOther ∧ Visits step Tree boot intoOther := by
  have hmeets : Meets step (fun s c => s.Handles c ∧ s.MovesOutside c) boot intoOther := by
    refine ⟨⟨?_, trivial⟩, fun s₁ hs₁ => ⟨⟨?_, trivial⟩, fun s₂ hs₂ => ⟨⟨?_, ?_⟩, fun s₃ _ => trivial⟩⟩⟩
    · intro d hd
      obtain rfl : d = 0 := by simpa [Call.handles] using hd
      exact .refl
    · intro d hd
      obtain rfl : d = 0 := by simpa [Call.handles] using hd
      exact .refl
    · cases hs₁
      cases hs₂
      intro d hd
      obtain rfl | rfl : d = 0 ∨ d = 2 := by simpa [Call.handles] using hd
      · exact .refl
      · exact .single ⟨by decide +kernel, ['b'], by decide +kernel⟩
    · cases hs₁
      cases hs₂
      intro c hc _ hbelow
      obtain rfl : c = 1 := Option.some.inj (hc.symm.trans (by decide +kernel))
      rcases ReflTransGen.cases_head hbelow with heq | ⟨x, ⟨-, n, hn⟩, -⟩
      · simp at heq
      · rw [RamFs.Inv.entry_of_not_occupied (by decide +kernel)] at hn
        cases hn
  exact ⟨hmeets, namespace_is_tree intoOther hmeets⟩

/-- Directory `a` with `b` in it, and then `a` moves into `b`. -/
def intoItself : List Call := [.mkdir 0 ['a'], .mkdir 1 ['b'], .rename 0 ['a'] 2 ['c']]

/-- The rename succeeds, and the two directories hold each other, out of reach of the root. -/
theorem rename_into_itself : Meets step Handles boot intoItself ∧ ¬Visits step Tree boot intoItself := by
  constructor
  · refine ⟨?_, fun s₁ hs₁ => ⟨?_, fun s₂ hs₂ => ⟨?_, fun s₃ _ => trivial⟩⟩⟩
    · intro d hd
      obtain rfl : d = 0 := by simpa [Call.handles] using hd
      exact .refl
    · cases hs₁
      intro d hd
      obtain rfl : d = 1 := by simpa [Call.handles] using hd
      exact .tail .refl ⟨by decide +kernel, ['a'], by decide +kernel⟩
    · cases hs₁
      cases hs₂
      intro d hd
      obtain rfl | rfl : d = 0 ∨ d = 2 := by simpa [Call.handles] using hd
      · exact .refl
      · refine ReflTransGen.tail (b := 1) (.single ?_) ?_
        · exact ⟨by decide +kernel, ['a'], by decide +kernel⟩
        · exact ⟨by decide +kernel, ['b'], by decide +kernel⟩
  · intro hv
    obtain ⟨s₃, hs₃⟩ : ∃ s₃, runs step boot intoItself = some s₃ := ⟨_, rfl⟩
    have htree : s₃.Tree := hv.last hs₃
    cases hs₃
    refine htree.acyclic 1 (.tail (.single (b := 2) ⟨by decide +kernel, ['b'], by decide +kernel⟩)
      ⟨by decide +kernel, ['c'], by decide +kernel⟩)

end State

end Koros.Ram
