import Koros.Fd.Open

/-!
# Lexical paths

What `normalize_absolute` and `split_absolute_parent` of `korix/src/syscall/mod.rs` compute. A normal path is the list of
its components, none of which is empty, `.` or `..`, and the loop over the components of a path is a fold that only ever
sees such a list.

- `normalizeComponents_append`: the loop goes on from what it kept;
- `splitOn_render`, `normalizeComponents_render`: a normal path is read back;
- `splitAbsoluteParent_render`: its last component is split off;
- **`normalize_laws`**: all of it, for every absolute path.
-/
set_option autoImplicit false

namespace Koros.Fd

open Koros.Vfs

/-! ## Components -/

/-- A component of a normal path. -/
structure Plain (c : Str) : Prop where
  ne_nil : c ≠ []
  ne_dot : c ≠ ['.']
  ne_dots : c ≠ ['.', '.']
  no_slash : '/' ∉ c

/-- A part between two slashes holds none. -/
theorem not_mem_of_mem_splitOn {path : Str} : ∀ {c : Str}, c ∈ path.splitOn '/' → '/' ∉ c := by
  induction path with
  | nil =>
    intro c hc
    rw [List.splitOn_nil, List.mem_singleton] at hc
    simp [hc]
  | cons x path ih =>
    intro c hc
    rw [List.splitOn_cons_eq_if_modifyHead] at hc
    split at hc
    · rcases List.mem_cons.1 hc with rfl | hc
      · exact List.not_mem_nil
      · exact ih hc
    · next hx =>
      have hx' : x ≠ '/' := by simpa using hx
      -- only the first part gets the character
      cases hparts : path.splitOn '/' with
      | nil => exact absurd hparts (List.splitOn_ne_nil _ _)
      | cons part parts =>
        rw [hparts, List.modifyHead_cons] at hc
        rcases List.mem_cons.1 hc with rfl | hc
        · have hpart := ih (hparts ▸ List.mem_cons_self : part ∈ path.splitOn '/')
          simp [hpart, Ne.symm hx']
        · exact ih (hparts ▸ List.mem_cons_of_mem _ hc)

/-! ## The loop -/

/-- What one component does to those that are kept. -/
def keepComponent (kept : List Str) (component : Str) : List Str :=
  if component = [] ∨ component = ['.'] then kept
  else if component = ['.', '.'] then kept.dropLast
  else kept ++ [component]

section Loop

variable {kept components : List Str}

theorem normalizeComponents_eq (components : List Str) : normalizeComponents components = components.foldl keepComponent [] :=
  rfl

theorem normalizeComponents_append (components rest : List Str) :
    normalizeComponents (components ++ rest) = rest.foldl keepComponent (normalizeComponents components) := by
  rw [normalizeComponents_eq, List.foldl_append, ← normalizeComponents_eq]

@[simp] theorem normalizeComponents_nil_cons (components : List Str) :
    normalizeComponents ([] :: components) = normalizeComponents components := by
  simp [normalizeComponents_eq, keepComponent]

theorem keepComponent_plain {c : Str} (hkept : ∀ k ∈ kept, Plain k) (hc : '/' ∉ c) : ∀ k ∈ keepComponent kept c, Plain k := by
  intro k hk
  unfold keepComponent at hk
  split at hk
  · exact hkept k hk
  next hempty =>
  split at hk
  · exact hkept k (List.dropLast_subset _ hk)
  next hdots =>
  rcases List.mem_append.1 hk with hk | hk
  · exact hkept k hk
  · obtain rfl := List.mem_singleton.1 hk
    exact ⟨fun h => hempty (.inl h), fun h => hempty (.inr h), hdots, hc⟩

/-- The loop keeps only plain components. -/
theorem foldl_plain (hkept : ∀ k ∈ kept, Plain k) (hparts : ∀ c ∈ components, '/' ∉ c) :
    ∀ k ∈ components.foldl keepComponent kept, Plain k := by
  induction components generalizing kept with
  | nil => exact hkept
  | cons c components ih =>
    exact ih (keepComponent_plain hkept (hparts c List.mem_cons_self)) fun d hd => hparts d (List.mem_cons_of_mem _ hd)

theorem normalizeComponents_plain (path : Str) : ∀ k ∈ normalizeComponents (path.splitOn '/'), Plain k :=
  foldl_plain nofun fun _ hc => not_mem_of_mem_splitOn hc

/-- Plain components are all kept. -/
theorem foldl_of_plain (h : ∀ c ∈ components, Plain c) : components.foldl keepComponent kept = kept ++ components := by
  induction components generalizing kept with
  | nil => simp
  | cons c components ih =>
    have hc := h c List.mem_cons_self
    have hkeep : keepComponent kept c = kept ++ [c] := by
      rw [keepComponent, if_neg (not_or.2 ⟨hc.ne_nil, hc.ne_dot⟩), if_neg hc.ne_dots]
    rw [List.foldl_cons, hkeep, ih fun d hd => h d (List.mem_cons_of_mem _ hd), List.append_assoc]
    rfl

end Loop

/-! ## Normal paths -/

/-- The path with the components. -/
def render (components : List Str) : Str := '/' :: ['/'].intercalate components

/-- `parent` and `name` with a slash between them. -/
def joinPath (parent name : Str) : Str := if parent = ['/'] then '/' :: name else parent ++ '/' :: name

section Normal

variable {components : List Str}

theorem normalizeAbsolute_eq {path : Str} (h : path.head? = some '/') :
    normalizeAbsolute path = some (render (normalizeComponents (path.splitOn '/'))) := if_pos h

theorem splitOn_cons_slash (s : Str) : List.splitOn '/' ('/' :: s) = [] :: s.splitOn '/' := by
  have h : List.splitOn '/' ([] ++ '/' :: s) = List.splitOn '/' ([] : Str) ++ s.splitOn '/' :=
    List.splitOn_append_cons_self [] s
  simpa using h

/-- The parts of a normal path. -/
theorem splitOn_render (h : ∀ c ∈ components, Plain c) :
    (render components).splitOn '/' = [] :: if components = [] then [[]] else components := by
  rw [render, splitOn_cons_slash]
  split
  · next hnil =>
    subst hnil
    rfl
  · next hne => rw [List.splitOn_intercalate '/' (fun c hc => (h c hc).no_slash) hne]

/-- A normal path is read back. -/
theorem normalizeComponents_render (h : ∀ c ∈ components, Plain c) :
    normalizeComponents ((render components).splitOn '/') = components := by
  rw [splitOn_render h, normalizeComponents_nil_cons]
  split
  · next hnil =>
    subst hnil
    rfl
  · rw [normalizeComponents_eq, foldl_of_plain h, List.nil_append]

theorem normalizeAbsolute_render (h : ∀ c ∈ components, Plain c) :
    normalizeAbsolute (render components) = some (render components) := by
  rw [normalizeAbsolute_eq rfl, normalizeComponents_render h]

theorem intercalate_concat (components : List Str) (c : Str) (hne : components ≠ []) :
    ['/'].intercalate (components ++ [c]) = ['/'].intercalate components ++ '/' :: c := by
  induction components with
  | nil => exact absurd rfl hne
  | cons d components ih =>
    cases components with
    | nil => simp
    | cons e components =>
      have hrest := ih (List.cons_ne_nil _ _)
      rw [List.cons_append] at hrest
      rw [List.cons_append, List.cons_append, List.intercalate_cons_cons, List.intercalate_cons_cons, hrest,
        List.append_assoc, List.append_assoc, List.append_assoc]

/-- The last component follows the last slash. -/
theorem render_concat (components : List Str) (c : Str) :
    render (components ++ [c]) = (if components = [] then [] else render components) ++ '/' :: c := by
  split
  · next hnil =>
    subst hnil
    simp [render]
  · next hne =>
    rw [render, intercalate_concat components c hne]
    rfl

/-- A path other than the root does not end with a slash. -/
theorem getLast?_render (h : ∀ c ∈ components, Plain c) (hlast : (render components).getLast? = some '/') :
    render components = ['/'] := by
  rcases List.eq_nil_or_concat components with rfl | ⟨init, c, rfl⟩
  · rfl
  · have hc := h c (by simp)
    rw [List.concat_eq_append, render_concat] at hlast
    rcases List.eq_nil_or_concat c with rfl | ⟨start, x, rfl⟩
    · exact absurd rfl hc.ne_nil
    · rw [List.concat_eq_append, ← List.cons_append, ← List.append_assoc, List.getLast?_concat] at hlast
      have hx : x = '/' := Option.some.inj hlast
      exact absurd (by simp [hx]) hc.no_slash

/-- `rsplit_once` finds the last slash. -/
theorem rsplitOnce_append {parent name : Str} (h : '/' ∉ name) : rsplitOnce (parent ++ '/' :: name) = some (parent, name) := by
  have hall : ∀ x ∈ name.reverse, decide (x ≠ '/') = true := by
    intro x hx
    refine decide_eq_true fun he => h ?_
    exact he ▸ List.mem_reverse.1 hx
  have hrev : (parent ++ '/' :: name).reverse = name.reverse ++ '/' :: parent.reverse := by simp
  rw [rsplitOnce, if_pos (by simp), hrev, List.dropWhile_append_of_pos hall, List.takeWhile_append_of_pos hall]
  simp

/-- The last component of a normal path other than the root is split off. -/
theorem splitAbsoluteParent_render {init : List Str} {c : Str} (h : ∀ d ∈ init ++ [c], Plain d) :
    splitAbsoluteParent (render (init ++ [c])) = .ok (render init, c) := by
  have hc := h c (by simp)
  have hroot : render (init ++ [c]) ≠ ['/'] := by
    intro hroot
    have hlen := congrArg List.length hroot
    have hpos := List.length_pos_of_ne_nil hc.ne_nil
    rw [render_concat, List.length_append, List.length_cons, List.length_singleton] at hlen
    omega
  have hname : ¬ (c = [] ∨ c = ['.'] ∨ c = ['.', '.']) := by
    rintro (h | h | h)
    · exact hc.ne_nil h
    · exact hc.ne_dot h
    · exact hc.ne_dots h
  rw [splitAbsoluteParent, if_neg hroot, render_concat, rsplitOnce_append hc.no_slash]
  dsimp only
  rw [if_neg hname]
  by_cases hinit : init = []
  · subst hinit
    rfl
  · rw [if_neg hinit, if_neg (show render init ≠ [] from List.cons_ne_nil _ _)]

theorem joinPath_render {init : List Str} {c : Str} (h : ∀ d ∈ init ++ [c], Plain d) :
    joinPath (render init) c = render (init ++ [c]) := by
  rw [render_concat, joinPath]
  by_cases hinit : init = []
  · subst hinit
    rfl
  · have hroot : render init ≠ ['/'] := by
      intro hroot
      have hplain : ∀ d ∈ init, Plain d := fun d hd => h d (List.mem_append_left _ hd)
      have hempty : render [] = ['/'] := rfl
      have hsame := congrArg (fun p => normalizeComponents (p.splitOn '/')) (hroot.trans hempty.symm)
      have hnone : ∀ d ∈ ([] : List Str), Plain d := fun _ hd => absurd hd List.not_mem_nil
      simp only [normalizeComponents_render hplain, normalizeComponents_render hnone] at hsame
      exact hinit hsame
    rw [if_neg hroot, if_neg hinit]

end Normal

/-- What is said of the normal form of a path. -/
structure NormalForm (path p : Str) : Prop where
  /-- Components between single slashes, none of them empty, `.` or `..`. -/
  components : ∃ components, p = render components ∧ ∀ c ∈ components, Plain c
  head : p.head? = some '/'
  last : p.getLast? = some '/' → p = ['/']
  again : normalizeAbsolute p = some p
  compose : ∀ rest, normalizeAbsolute (path ++ '/' :: rest) = normalizeAbsolute (p ++ '/' :: rest)
  split : p ≠ ['/'] → ∃ parent name, splitAbsoluteParent p = .ok (parent, name) ∧ normalizeAbsolute parent = some parent ∧
    name ≠ [] ∧ joinPath parent name = p

/-- **Lexical normalisation**, for every path that starts with a slash. -/
theorem normalize_laws (path : Str) (h : path.head? = some '/') : ∃ p, normalizeAbsolute path = some p ∧ NormalForm path p := by
  set components := normalizeComponents (path.splitOn '/') with hcomponents
  have hplain : ∀ c ∈ components, Plain c := normalizeComponents_plain path
  refine ⟨render components, normalizeAbsolute_eq h, ⟨components, rfl, hplain⟩, rfl, getLast?_render hplain,
    normalizeAbsolute_render hplain, fun rest => ?_, fun hroot => ?_⟩
  · have hhead : (path ++ '/' :: rest).head? = some '/' := by
      rw [List.head?_append, h]
      rfl
    rw [normalizeAbsolute_eq hhead, normalizeAbsolute_eq (show (render components ++ '/' :: rest).head? = some '/' from rfl),
      List.splitOn_append_cons_self, List.splitOn_append_cons_self, normalizeComponents_append, normalizeComponents_append,
      normalizeComponents_render hplain]
  · rcases List.eq_nil_or_concat components with hnil | ⟨init, c, hconcat⟩
    · rw [hnil] at hroot
      exact absurd rfl hroot
    · rw [List.concat_eq_append] at hconcat
      rw [hconcat] at hplain ⊢
      have hinit : ∀ d ∈ init, Plain d := fun d hd => hplain d (List.mem_append_left _ hd)
      exact ⟨render init, c, splitAbsoluteParent_render hplain, normalizeAbsolute_render hinit,
        (hplain c (by simp)).ne_nil, joinPath_render hplain⟩

/-- `/a/../b/./c` is `/b/c`. -/
theorem normalize_laws_dots :
    normalizeAbsolute "/a/../b/./c".toList = some "/b/c".toList ∧ NormalForm "/a/../b/./c".toList "/b/c".toList := by
  obtain ⟨p, hp, hform⟩ := normalize_laws "/a/../b/./c".toList rfl
  have hvalue : normalizeAbsolute "/a/../b/./c".toList = some "/b/c".toList := by decide
  rw [hvalue, Option.some.injEq] at hp
  exact ⟨hvalue, hp ▸ hform⟩

end Koros.Fd
