import Koros.Vfs.Types
import Mathlib.Data.List.Induction
import Mathlib.Logic.Function.Iterate

/-!
# Following symbolic links

`resolve_path` of `kor-fs/src/path.rs` over an arbitrary graph of inodes: the loop over the components, the recursion into
the target of a link, and the counter that they share. Beside it stands the resolution without a limit, one component at a
time, where the components of a target are put in front of the rest (`Cfg.step`).

- `walk_sim`: the recursion does what the resolution without a limit does, up to the link that is one too many;
- `resolvePath_exact`: it returns what that resolution ends with if it gets by with the links allowed, else
  `TooManyLinks`.
-/
set_option autoImplicit false

namespace Koros.Vfs

/-! ## Components -/

/-- `Path::components`. -/
def components (path : Str) : List Str := (path.splitOn '/').filter (· ≠ [])

theorem components_cons_slash (s : Str) : components ('/' :: s) = components s := by
  have := List.splitOn_append_cons_self (a := '/') [] s
  simp [components, List.nil_append] at this ⊢
  simp [this]

theorem components_append_slash (s r : Str) : components (s ++ '/' :: r) = components s ++ components r := by
  simp [components, List.splitOn_append_cons_self]

theorem components_concat_slash (s : Str) : components (s ++ ['/']) = components s := by
  rw [components_append_slash]
  simp [components]

/-- Components are taken apart at a slash. -/
theorem components_append {a b : Str} (h : b = [] ∨ b.head? = some '/' ∨ a.getLast? = some '/') :
    components (a ++ b) = components a ++ components b := by
  rcases h with rfl | hb | ha
  · simp [components]
  · obtain ⟨b, rfl⟩ : ∃ b', b = '/' :: b' := by
      cases b with
      | nil => simp at hb
      | cons c b => exact ⟨b, by simpa using hb⟩
    rw [components_append_slash, components_cons_slash]
  · obtain ⟨a, rfl⟩ : ∃ a', a = a' ++ ['/'] := by
      obtain ⟨a', c, rfl⟩ := List.eq_nil_or_concat a |>.resolve_left (by rintro rfl; simp at ha)
      exact ⟨a', by simpa using ha⟩
    rw [List.append_assoc, List.singleton_append, components_append_slash, components_concat_slash]

theorem components_dropWhile (s : Str) : components (s.dropWhile (· = '/')) = components s := by
  induction s with
  | nil => rfl
  | cons c s ih =>
    by_cases hc : c = '/'
    · subst hc
      rw [components_cons_slash, ← ih]
      simp
    · simp [hc]

theorem components_single {a : Str} (hne : a ≠ []) (h : '/' ∉ a) : components a = [a] := by
  simp [components, List.splitOn_eq_singleton h, hne]

namespace Symlinks

/-! ## The model -/

/-- What the resolution asks of inodes. -/
structure Graph (I : Type) where
  lookup : I → Str → Except FsError I
  /-- `is_symlink`, with the error of `getattr`. -/
  isSymlink : I → Except FsError Bool
  readlink : I → Except FsError Str

/-- `Components::next`: the component and what remains. -/
def nextComponent (remaining : Str) : Option (Str × Str) :=
  let remaining := remaining.dropWhile (· = '/')
  if remaining = [] then none else some (remaining.takeWhile (· ≠ '/'), remaining.dropWhile (· ≠ '/'))

theorem nextComponent_lt {s name rest : Str} (h : nextComponent s = some (name, rest)) : rest.length < s.length := by
  simp only [nextComponent] at h
  split at h
  · cases h
  · rename_i hne
    simp only [Option.some.injEq, Prod.mk.injEq] at h
    obtain ⟨c, r, hr⟩ := List.exists_cons_of_ne_nil hne
    have hc : c ≠ '/' := by
      have := List.head?_dropWhile_not (p := fun x => decide (x = '/')) s
      rw [hr] at this
      simpa using this
    have hle := (List.dropWhile_sublist (fun x => decide (x = '/')) (l := s)).length_le
    have hle' := (List.dropWhile_sublist (fun x => decide (x ≠ '/')) (l := r)).length_le
    rw [hr, List.length_cons] at hle
    rw [← h.2, hr, List.dropWhile_cons_of_pos (by simpa using hc)]
    omega

/-- The components that the iterator yields. -/
def collectComponents (s : Str) : List Str :=
  match _h : nextComponent s with
  | none => []
  | some (name, rest) => name :: collectComponents rest
termination_by s.length
decreasing_by exact nextComponent_lt _h

/-- The iterator yields the parts between the slashes that are not empty. -/
theorem collectComponents_eq (s : Str) : collectComponents s = components s := by
  rw [collectComponents]
  split
  · rename_i h
    simp only [nextComponent] at h
    split at h
    · rename_i hnil
      rw [← components_dropWhile, hnil]
      decide
    · cases h
  · rename_i name rest h
    have hlt := nextComponent_lt h
    rw [collectComponents_eq rest, ← components_dropWhile s]
    simp only [nextComponent] at h
    split at h
    · cases h
    · rename_i hne
      simp only [Option.some.injEq, Prod.mk.injEq] at h
      obtain ⟨c, r, hr⟩ := List.exists_cons_of_ne_nil hne
      have hc : c ≠ '/' := by
        have := List.head?_dropWhile_not (fun x => decide (x = '/')) s
        rw [hr] at this
        simpa using this
      rw [hr] at h ⊢
      have hname : name ≠ [] := by
        rw [← h.1, List.takeWhile_cons_of_pos (by simpa using hc)]
        simp
      have hslash : '/' ∉ name := by
        rw [← h.1]
        intro hm
        simpa using List.all_eq_true.1 List.all_takeWhile _ hm
      have hsplit : c :: r = name ++ rest := by rw [← h.1, ← h.2, List.takeWhile_append_dropWhile]
      have hrest : rest = [] ∨ rest.head? = some '/' ∨ name.getLast? = some '/' := by
        have hhead := List.head?_dropWhile_not (fun x => decide (x ≠ '/')) (c :: r)
        rw [h.2] at hhead
        cases rest with
        | nil => exact Or.inl rfl
        | cons d rest => exact Or.inr (Or.inl (by simpa using hhead))
      rw [hsplit, components_append hrest, components_single hname hslash]
      rfl
termination_by s.length

def isAbsolute (path : Str) : Bool := path.head? = some '/'

/-- `MAX_SYMLINK_DEPTH`. -/
def maxSymlinkDepth : Nat := 40

/-- What a resolution ends with, the counter, and the number of targets that were read. -/
structure Outcome (I : Type) where
  result : Except FsError I
  depth : Nat
  reads : Nat

section Walk

variable {I : Type} (g : Graph I) (root : I)

/-- The loop of `resolve_inner` over the components that are left, with the recursion into the target of a link. The
counter only goes up. -/
def walk (current : I) (names : List Str) (depth reads : Nat) : { o : Outcome I // depth ≤ o.depth } :=
  match names with
  | [] => ⟨⟨.ok current, depth, reads⟩, Nat.le_refl _⟩
  | name :: rest =>
    if name = ['.'] then walk current rest depth reads
    else if name = ['.', '.'] then
      match g.lookup current name with
      | .error e => ⟨⟨.error e, depth, reads⟩, Nat.le_refl _⟩
      | .ok next => walk next rest depth reads
    else
      match g.lookup current name with
      | .error e => ⟨⟨.error e, depth, reads⟩, Nat.le_refl _⟩
      | .ok next =>
        match g.isSymlink next with
        | .error e => ⟨⟨.error e, depth, reads⟩, Nat.le_refl _⟩
        | .ok false => walk next rest depth reads
        | .ok true =>
          if _hd : depth + 1 > maxSymlinkDepth then ⟨⟨.error .tooManyLinks, depth + 1, reads⟩, Nat.le_succ _⟩
          else
            match g.readlink next with
            | .error e => ⟨⟨.error e, depth + 1, reads + 1⟩, Nat.le_succ _⟩
            | .ok target =>
              match walk (if isAbsolute target then root else current) (collectComponents target) (depth + 1)
                  (reads + 1) with
              | ⟨⟨.error e, d, r⟩, h⟩ => ⟨⟨.error e, d, r⟩, Nat.le_of_succ_le h⟩
              | ⟨⟨.ok current, d, r⟩, h⟩ =>
                let o := walk current rest d r
                ⟨o.1, Nat.le_trans (Nat.le_of_succ_le h) o.2⟩
termination_by (maxSymlinkDepth + 1 - depth, names.length)
decreasing_by
  all_goals first
    | exact Prod.Lex.right _ (Nat.lt_succ_self _)
    | exact Prod.Lex.left _ _ (by omega)
    | exact Prod.Lex.left _ _ (by have hle : depth + 1 ≤ d := h; omega)

/-- `resolve_inner`. -/
def resolveInner (start : I) (path : Str) (depth reads : Nat) : Outcome I :=
  (walk g root (if isAbsolute path then root else start) (collectComponents path) depth reads).1

/-- `resolve_path`. -/
def resolvePath (start : I) (path : Str) : Outcome I := resolveInner g start start path 0 0

/-! ## Without links -/

/-- One component in a graph without links. -/
def Graph.enter (current : I) (name : Str) : Except FsError I :=
  if name = ['.'] then .ok current else g.lookup current name

/-- Where nothing is a link, the loop is a fold of lookups. -/
theorem walk_plain (hplain : ∀ node, g.isSymlink node = .ok false) (current : I) (names : List Str) (depth reads : Nat) :
    (walk g root current names depth reads).1.result = names.foldlM g.enter current := by
  induction names generalizing current with
  | nil =>
    rw [walk.eq_def]
    rfl
  | cons name rest ih =>
    rw [walk.eq_def, List.foldlM_cons]
    by_cases hdot : name = ['.']
    · simp only [Graph.enter, if_pos hdot]
      exact ih current
    by_cases hup : name = ['.', '.']
    · simp only [Graph.enter, if_neg hdot, if_pos hup]
      cases g.lookup current name with
      | error e => rfl
      | ok next => exact ih next
    · simp only [Graph.enter, if_neg hdot, if_neg hup]
      cases g.lookup current name with
      | error e => rfl
      | ok next =>
        simp only [hplain next]
        exact ih next

theorem resolvePath_plain (hplain : ∀ node, g.isSymlink node = .ok false) (start : I) (path : Str) :
    (resolvePath g start path).result = (components path).foldlM g.enter start := by
  have hstart : (if isAbsolute path then start else start) = start := ite_self _
  rw [resolvePath, resolveInner, hstart, walk_plain g start hplain, collectComponents_eq]

/-! ## The resolution without a limit -/

/-- Where it is, the components that are left, and the links that were met. -/
inductive Cfg (I : Type) where
  | walk (current : I) (names : List Str) (links : Nat)
  | halt (result : Except FsError I) (links : Nat)

namespace Cfg

def links : Cfg I → Nat
  | .walk _ _ links => links
  | .halt _ links => links

/-- One component. The components of a link's target come before the rest. -/
def step : Cfg I → Cfg I
  | .halt result links => .halt result links
  | .walk current [] links => .halt (.ok current) links
  | .walk current (name :: rest) links =>
    if name = ['.'] then .walk current rest links
    else if name = ['.', '.'] then
      match g.lookup current name with
      | .error e => .halt (.error e) links
      | .ok next => .walk next rest links
    else
      match g.lookup current name with
      | .error e => .halt (.error e) links
      | .ok next =>
        match g.isSymlink next with
        | .error e => .halt (.error e) links
        | .ok false => .walk next rest links
        | .ok true =>
          match g.readlink next with
          | .error e => .halt (.error e) (links + 1)
          | .ok target =>
            .walk (if isAbsolute target then root else current) (collectComponents target ++ rest) (links + 1)

/-- The configuration after `n` steps. -/
def after (n : Nat) (c : Cfg I) : Cfg I := (step g root)^[n] c

/-- Where the resolution of a path begins. -/
def initial (start : I) (path : Str) : Cfg I := .walk start (collectComponents path) 0

end Cfg

/-- One configuration leads to another. -/
def Leads (c c' : Cfg I) : Prop := ∃ n, Cfg.after g root n c = c'

variable {g root}

theorem Leads.refl (c : Cfg I) : Leads g root c c := ⟨0, rfl⟩

theorem Leads.trans {c c' c'' : Cfg I} (h : Leads g root c c') (h' : Leads g root c' c'') : Leads g root c c'' := by
  obtain ⟨n, rfl⟩ := h
  obtain ⟨k, rfl⟩ := h'
  exact ⟨k + n, Function.iterate_add_apply _ _ _ _⟩

/-! ## The simulation -/

/-- What an outcome says about the resolution without a limit, from the same place with more components behind. -/
def Simulates (g : Graph I) (root : I) (c : List Str → Cfg I) (o : Outcome I) : Prop :=
  ∀ rest, match o.result with
    | .ok current => o.depth ≤ maxSymlinkDepth ∧ o.reads = o.depth ∧ Leads g root (c rest) (.walk current rest o.depth)
    | .error e =>
      (o.depth ≤ maxSymlinkDepth ∧ o.reads = o.depth ∧ Leads g root (c rest) (.halt (.error e) o.depth)) ∨
      (o.depth = maxSymlinkDepth + 1 ∧ o.reads = maxSymlinkDepth ∧ e = .tooManyLinks ∧
        ∃ c', Leads g root (c rest) c' ∧ c'.links = maxSymlinkDepth + 1)

/-- Steps before. -/
theorem Simulates.of_leads {c c₁ : List Str → Cfg I} {o : Outcome I} (hl : ∀ rest, Leads g root (c rest) (c₁ rest))
    (h : Simulates g root c₁ o) : Simulates g root c o := by
  intro rest
  have hr := h rest
  split at hr
  · exact ⟨hr.1, hr.2.1, (hl rest).trans hr.2.2⟩
  · rcases hr with ⟨h₁, h₂, h₃⟩ | ⟨h₁, h₂, h₃, c', h₄, h₅⟩
    · exact Or.inl ⟨h₁, h₂, (hl rest).trans h₃⟩
    · exact Or.inr ⟨h₁, h₂, h₃, c', (hl rest).trans h₄, h₅⟩

theorem leads_of_step {c c' : Cfg I} (h : Cfg.step g root c = c') : Leads g root c c' := ⟨1, h⟩

/-- An error that a lookup, `getattr` or `readlink` returns. -/
theorem Simulates.of_halt {c : List Str → Cfg I} {e : FsError} {depth : Nat} (hd : depth ≤ maxSymlinkDepth)
    (h : ∀ rest, Cfg.step g root (c rest) = .halt (.error e) depth) : Simulates g root c ⟨.error e, depth, depth⟩ :=
  fun rest => Or.inl ⟨hd, rfl, leads_of_step (h rest)⟩

/-- An error inside a target ends the whole resolution. -/
theorem Simulates.error_frame {c : List Str → Cfg I} {o : Outcome I} {e : FsError} (tail : List Str)
    (h : Simulates g root c o) (he : o.result = .error e) : Simulates g root (fun rest => c (tail ++ rest)) o := by
  intro rest
  have hr := h (tail ++ rest)
  rw [he] at hr ⊢
  exact hr

/-- The recursion and the resolution without a limit go the same way. -/
theorem walk_sim (current : I) (names : List Str) (depth : Nat) (hd : depth ≤ maxSymlinkDepth) :
    Simulates g root (fun rest => .walk current (names ++ rest) depth) (walk g root current names depth depth).1 := by
  rw [walk.eq_def]
  cases names with
  | nil => exact fun rest => ⟨hd, rfl, .refl _⟩
  | cons name tail =>
    simp only [List.cons_append]
    by_cases hdot : name = ['.']
    · rw [if_pos hdot]
      exact (walk_sim current tail depth hd).of_leads fun rest => leads_of_step (by simp [Cfg.step, hdot])
    rw [if_neg hdot]
    by_cases hup : name = ['.', '.']
    · rw [if_pos hup]
      cases hl : g.lookup current name with
      | error e => exact .of_halt hd fun rest => by simp only [Cfg.step, if_neg hdot, if_pos hup, hl]
      | ok next =>
        exact (walk_sim next tail depth hd).of_leads fun rest =>
          leads_of_step (by simp only [Cfg.step, if_neg hdot, if_pos hup, hl])
    rw [if_neg hup]
    cases hl : g.lookup current name with
    | error e => exact .of_halt hd fun rest => by simp only [Cfg.step, if_neg hdot, if_neg hup, hl]
    | ok next =>
      simp only
      cases hsym : g.isSymlink next with
      | error e => exact .of_halt hd fun rest => by simp only [Cfg.step, if_neg hdot, if_neg hup, hl, hsym]
      | ok link =>
        cases link with
        | false =>
          exact (walk_sim next tail depth hd).of_leads fun rest =>
            leads_of_step (by simp only [Cfg.step, if_neg hdot, if_neg hup, hl, hsym])
        | true =>
          simp only
          by_cases hmax : depth + 1 > maxSymlinkDepth
          · rw [dif_pos hmax]
            intro rest
            refine Or.inr ⟨?_, ?_, rfl, Cfg.step g root (.walk current (name :: (tail ++ rest)) depth), leads_of_step rfl, ?_⟩
            · simp only
              omega
            · simp only
              omega
            · simp only [Cfg.step, if_neg hdot, if_neg hup, hl, hsym]
              cases g.readlink next <;> simp only [Cfg.links] <;> omega
          · rw [dif_neg hmax]
            have hd' : depth + 1 ≤ maxSymlinkDepth := Nat.le_of_not_lt hmax
            cases hread : g.readlink next with
            | error e =>
              exact .of_halt hd' fun rest => by simp only [Cfg.step, if_neg hdot, if_neg hup, hl, hsym, hread]
            | ok target =>
              simp only
              have hstep : ∀ rest, Cfg.step g root (.walk current (name :: (tail ++ rest)) depth) =
                  .walk (if isAbsolute target then root else current) (collectComponents target ++ (tail ++ rest))
                    (depth + 1) := fun rest => by
                simp only [Cfg.step, if_neg hdot, if_neg hup, hl, hsym, hread]
              have hin := walk_sim (if isAbsolute target then root else current) (collectComponents target) (depth + 1) hd'
              generalize hwalk : walk g root (if isAbsolute target then root else current) (collectComponents target)
                (depth + 1) (depth + 1) = o at hin
              obtain ⟨⟨result, d, r⟩, hle⟩ := o
              cases result with
              | error e =>
                exact (hin.error_frame tail rfl).of_leads fun rest => leads_of_step (hstep rest)
              | ok inner =>
                obtain ⟨hdle, hreads, -⟩ := hin []
                simp only at hdle hreads
                subst hreads
                refine Simulates.of_leads (fun rest => ?_) (walk_sim inner tail r hdle)
                obtain ⟨-, -, hleads⟩ := hin (tail ++ rest)
                exact (leads_of_step (hstep rest)).trans hleads
termination_by (maxSymlinkDepth + 1 - depth, names.length)
decreasing_by
  all_goals first
    | exact Prod.Lex.right _ (Nat.lt_succ_self _)
    | exact Prod.Lex.left _ _ (by omega)
    | exact Prod.Lex.left _ _ (by have hle' : depth + 1 ≤ r := hle; omega)

/-! ## The whole path -/

theorem step_links (c : Cfg I) : c.links ≤ (Cfg.step g root c).links := by
  cases c with
  | halt result links => exact Nat.le_refl _
  | walk current names links =>
    cases names with
    | nil => exact Nat.le_refl _
    | cons name rest =>
      simp only [Cfg.step]
      repeat' split
      all_goals
        simp only [Cfg.links]
        omega

theorem after_succ (n : Nat) (c : Cfg I) : Cfg.after g root (n + 1) c = Cfg.step g root (Cfg.after g root n c) :=
  Function.iterate_succ_apply' _ _ _

theorem after_links (c : Cfg I) {n k : Nat} (h : n ≤ k) : (Cfg.after g root n c).links ≤ (Cfg.after g root k c).links := by
  induction h with
  | refl => exact Nat.le_refl _
  | step _ ih =>
    rw [after_succ]
    exact Nat.le_trans ih (step_links _)

/-- What has ended stays. -/
theorem after_halt {c : Cfg I} {n k : Nat} {result : Except FsError I} {links : Nat}
    (hn : Cfg.after g root n c = .halt result links) (h : n ≤ k) : Cfg.after g root k c = .halt result links := by
  induction h with
  | refl => exact hn
  | step _ ih =>
    rw [after_succ, ih]
    rfl

/-- The resolution without a limit meets a link more than are allowed. -/
def NeedsMore (g : Graph I) (start : I) (path : Str) : Prop :=
  ∃ n, maxSymlinkDepth < (Cfg.after g start n (.initial start path)).links

/-- The resolution without a limit ends, with links that are allowed. -/
def EndsWith (g : Graph I) (start : I) (path : Str) (result : Except FsError I) : Prop :=
  ∃ n links, links ≤ maxSymlinkDepth ∧ Cfg.after g start n (.initial start path) = .halt result links

theorem not_needsMore_of_ends {start : I} {path : Str} {result : Except FsError I} (h : EndsWith g start path result) :
    ¬ NeedsMore g start path := by
  obtain ⟨n, links, hle, hn⟩ := h
  rintro ⟨k, hk⟩
  have hmax : (Cfg.after g start k (.initial start path)).links ≤ _ := after_links _ (Nat.le_max_right n k)
  rw [after_halt hn (Nat.le_max_left n k)] at hmax
  have hlinks : (Cfg.halt result links).links = links := rfl
  omega

/-- It ends with one result. -/
theorem endsWith_unique {start : I} {path : Str} {result result' : Except FsError I} (h : EndsWith g start path result)
    (h' : EndsWith g start path result') : result = result' := by
  obtain ⟨n, links, -, hn⟩ := h
  obtain ⟨k, links', -, hk⟩ := h'
  have h₁ := after_halt hn (Nat.le_max_left n k)
  rw [after_halt hk (Nat.le_max_right n k)] at h₁
  cases h₁
  rfl

theorem resolvePath_cases (g : Graph I) (start : I) (path : Str) :
    (resolvePath g start path).reads ≤ maxSymlinkDepth ∧
      ((NeedsMore g start path ∧ (resolvePath g start path).result = .error .tooManyLinks) ∨
        EndsWith g start path (resolvePath g start path).result) := by
  have hstart : (if isAbsolute path then start else start) = start := ite_self _
  have hsim : Simulates g start _ (walk g start start (collectComponents path) 0 0).1 :=
    walk_sim start (collectComponents path) 0 (Nat.zero_le _)
  have hsim := hsim []
  simp only [List.append_nil] at hsim
  rw [resolvePath, resolveInner, hstart]
  generalize (walk g start start (collectComponents path) 0 0).1 = o at hsim ⊢
  obtain ⟨result, depth, reads⟩ := o
  cases result with
  | ok current =>
    obtain ⟨hd, hr, n, hn⟩ := hsim
    simp only at hd hr hn ⊢
    refine ⟨by omega, Or.inr ⟨n + 1, depth, hd, ?_⟩⟩
    rw [after_succ]
    exact congrArg (Cfg.step g start) hn
  | error e =>
    simp only at hsim ⊢
    rcases hsim with ⟨hd, hr, n, hn⟩ | ⟨hd, hr, rfl, c', ⟨n, rfl⟩, hlinks⟩
    · exact ⟨by omega, Or.inr ⟨n, depth, hd, hn⟩⟩
    · refine ⟨by omega, Or.inl ⟨⟨n, ?_⟩, rfl⟩⟩
      rw [Cfg.initial, hlinks]
      exact Nat.lt_succ_self _

/-- **The budget of links**, for every graph of inodes, start and path: at most forty targets are read; if the resolution
without a limit meets one link more, the answer is `TooManyLinks`, and if not, that resolution ends, and with the answer. -/
theorem resolvePath_exact (g : Graph I) (start : I) (path : Str) :
    (resolvePath g start path).reads ≤ maxSymlinkDepth ∧
    (NeedsMore g start path → (resolvePath g start path).result = .error .tooManyLinks) ∧
    (¬ NeedsMore g start path → EndsWith g start path (resolvePath g start path).result) ∧
    ((resolvePath g start path).result = .error .tooManyLinks ↔
      NeedsMore g start path ∨ EndsWith g start path (.error .tooManyLinks)) := by
  obtain ⟨hreads, hcases⟩ := resolvePath_cases g start path
  refine ⟨hreads, fun hmore => ?_, fun hno => ?_, fun he => ?_, ?_⟩
  · rcases hcases with ⟨-, h⟩ | h
    · exact h
    · exact absurd hmore (not_needsMore_of_ends h)
  · rcases hcases with ⟨h, -⟩ | h
    · exact absurd h hno
    · exact h
  · rcases hcases with ⟨h, -⟩ | h
    · exact Or.inl h
    · rw [he] at h
      exact Or.inr h
  · rintro (hmore | hends)
    · rcases hcases with ⟨-, h⟩ | h
      · exact h
      · exact absurd hmore (not_needsMore_of_ends h)
    · rcases hcases with ⟨h, -⟩ | h
      · exact absurd h (not_needsMore_of_ends hends)
      · exact endsWith_unique h hends

end Walk

end Symlinks

end Koros.Vfs
