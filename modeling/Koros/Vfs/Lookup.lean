import Koros.Vfs.Resolve

/-!
# Lookup in the mount table

The calls of `kor-fs/src/mount.rs` with the table as their state: `mount` enters the filesystem before it asks for
`on_mount`, and takes it out again if that fails; `unmount` asks for `on_unmount` before it takes the filesystem out. Keys
are compared as the texts of paths; the byte order of UTF-8 is the order of the characters.

- `Calls.serve_error`: a call that fails leaves the table as it was;
- `lookup_longest`: in every table that the calls lead to, the last of the keys that are prefixes is the longest one.
-/
set_option autoImplicit false

namespace Koros.Vfs

open Std Koros.Lib MountTable

namespace Calls

/-- `mount` over the lock: the answer and the table. -/
def mount (m : MountTable) (path : Str) (fs : Tree) (onMount : Except FsError Unit) : Except FsError Unit × MountTable :=
  match m.mount path fs with
  | .error e => (.error e, m)
  | .ok entered =>
    match onMount with
    | .ok () => (.ok (), entered)
    | .error e =>
      -- the answer of the removal is dropped
      match entered.unmount path with
      | .ok removed => (.error e, removed)
      | .error _ => (.error e, entered)

/-- `unmount` over the lock. -/
def unmount (m : MountTable) (path : Str) (onUnmount : Except FsError Unit) : Except FsError Unit × MountTable :=
  if m.contains (canonicalizeMountPath path) then
    match onUnmount with
    | .error e => (.error e, m)
    | .ok () =>
      match m.unmount path with
      | .ok removed => (.ok (), removed)
      | .error e => (.error e, m)
  else (.error .notFound, m)

end Calls

/-- A call, with what the filesystem answers to it. -/
inductive MountCall where
  | mount (path : Str) (fs : Tree) (onMount : Except FsError Unit)
  | unmount (path : Str) (onUnmount : Except FsError Unit)

namespace Calls

def serve (m : MountTable) : MountCall → Except FsError Unit × MountTable
  | .mount path fs onMount => mount m path fs onMount
  | .unmount path onUnmount => unmount m path onUnmount

/-- The table after the calls. -/
def after (calls : List MountCall) : MountTable := calls.foldl (fun m call => (serve m call).2) ∅

variable {m : MountTable} {path : Str} {e : FsError}

/-- An entry that is put in and taken out. -/
theorem erase_insert_equiv {k : Str} (fs : Tree) (hk : m.contains k = false) :
    TreeMap.Equiv ((m.insert k fs).erase k) m := by
  refine TreeMap.Equiv.of_forall_constGet?_eq fun k' => ?_
  change ((m.insert k fs).erase k)[k']? = m[k']?
  rw [TreeMap.getElem?_erase, TreeMap.getElem?_insert]
  by_cases heq : compare k k' = .eq
  · rw [if_pos heq]
    have hkk : k = k' := LawfulEqCmp.eq_of_compare heq
    rw [← hkk, (not_contains_iff m k).1 hk]
  · rw [if_neg heq, if_neg heq]

/-- A mount that fails. -/
theorem mount_error {fs : Tree} {onMount : Except FsError Unit} (h : (mount m path fs onMount).1 = .error e) :
    TreeMap.Equiv (mount m path fs onMount).2 m := by
  by_cases hc : m.contains (canonicalizeMountPath path) = true
  · have he : mount m path fs onMount = (.error .alreadyExists, m) := by simp [mount, MountTable.mount, hc]
    rw [he]
  · have hc : m.contains (canonicalizeMountPath path) = false := eq_false_of_ne_true hc
    cases onMount with
    | ok _ => simp [mount, MountTable.mount, hc] at h
    | error e' =>
      have he : mount m path fs (.error e') =
          (.error e', (m.insert (canonicalizeMountPath path) fs).erase (canonicalizeMountPath path)) := by
        simp [mount, MountTable.mount, hc, MountTable.unmount]
      rw [he]
      exact erase_insert_equiv fs hc

/-- An unmount that fails. -/
theorem unmount_error {onUnmount : Except FsError Unit} (h : (unmount m path onUnmount).1 = .error e) :
    (unmount m path onUnmount).2 = m := by
  by_cases hc : m.contains (canonicalizeMountPath path) = true
  · cases onUnmount with
    | ok _ => simp [unmount, MountTable.unmount, hc] at h
    | error e' => simp [unmount, hc]
  · simp [unmount, hc]

/-- A call that fails leaves the table as it was. -/
theorem serve_error {call : MountCall} (h : (serve m call).1 = .error e) : (serve m call).2.toList = m.toList := by
  cases call with
  | mount path fs onMount => exact (mount_error h).toList_eq
  | unmount path onUnmount => exact congrArg TreeMap.toList (unmount_error h)

end Calls

/-- The key is the path, or a part of it that ends at a slash. -/
def SlashPrefix (k path : Str) : Prop :=
  path = k ∨ ∃ r, path = k ++ r ∧ (k.getLast? = some '/' ∨ r.head? = some '/')

theorem slashPrefix_iff (k path : Str) : isMountPrefix k path = true ↔ SlashPrefix k path := by
  rw [isMountPrefix_iff]
  constructor
  · rintro ⟨r, rfl, rfl | hr | hk⟩
    · exact Or.inl (by simp)
    · exact Or.inr ⟨r, rfl, Or.inr hr⟩
    · exact Or.inr ⟨r, rfl, Or.inl hk⟩
  · rintro (rfl | ⟨r, rfl, hk | hr⟩)
    · exact ⟨[], by simp, Or.inl rfl⟩
    · exact ⟨r, rfl, Or.inr (Or.inr hk)⟩
    · exact ⟨r, rfl, Or.inr (Or.inl hr)⟩

namespace MountTable

/-- A table with a prefix of the path has an answer. -/
theorem findPrefix_ne_none {m : MountTable} {path k : Str} (hk : m.contains k = true)
    (hpre : isMountPrefix k (canonicalizeMountPath path) = true) : m.findPrefix path ≠ none := by
  obtain ⟨t, ht⟩ := (contains_iff m k).1 hk
  obtain ⟨r, hr, -⟩ := isMountPrefix_iff.1 hpre
  intro hnone
  refine List.find?_eq_none.1 hnone (k, t) ?_ hpre
  rw [List.mem_reverse, List.mem_filter]
  refine ⟨TreeMap.mem_toList_iff_getElem?_eq_some.2 ht, ?_⟩
  rw [hr]
  simpa using compare_append k r

/-- The answer is a key that is a prefix, and no longer key is one. -/
theorem longestPrefix_iff (m : MountTable) (path k : Str) : m.longestPrefix path = some k ↔
    m.contains k = true ∧ SlashPrefix k (canonicalizeMountPath path) ∧
      ∀ k', m.contains k' = true → SlashPrefix k' (canonicalizeMountPath path) → k'.length ≤ k.length := by
  constructor
  · intro h
    obtain ⟨⟨k₀, t⟩, hfind, rfl⟩ := Option.map_eq_some_iff.1 h
    obtain ⟨ht, hpre⟩ := findPrefix_mem hfind
    refine ⟨(contains_iff m _).2 ⟨t, ht⟩, (slashPrefix_iff _ _).1 hpre, fun k' hk' hpre' => ?_⟩
    exact findPrefix_spec hfind hk' ((slashPrefix_iff _ _).2 hpre')
  · rintro ⟨hk, hpre, hmax⟩
    have hpre := (slashPrefix_iff _ _).2 hpre
    obtain ⟨⟨k₀, t⟩, hfind⟩ := Option.ne_none_iff_exists'.1 (findPrefix_ne_none hk hpre)
    obtain ⟨ht, hpre₀⟩ := findPrefix_mem hfind
    have hlen : k.length = k₀.length :=
      Nat.le_antisymm (findPrefix_spec hfind hk hpre)
        (hmax k₀ ((contains_iff m _).2 ⟨t, ht⟩) ((slashPrefix_iff _ _).1 hpre₀))
    -- two prefixes of one text that are as long as each other are one
    obtain ⟨r, hr, -⟩ := isMountPrefix_iff.1 hpre
    obtain ⟨r₀, hr₀, -⟩ := isMountPrefix_iff.1 hpre₀
    have heq : k = k₀ := (List.append_inj (hr.symm.trans hr₀) hlen).1
    rw [longestPrefix, hfind, heq]
    rfl

theorem longestPrefix_eq_none (m : MountTable) (path : Str) : m.longestPrefix path = none ↔
    ∀ k, m.contains k = true → ¬ SlashPrefix k (canonicalizeMountPath path) := by
  constructor
  · intro h k hk hpre
    exact findPrefix_ne_none hk ((slashPrefix_iff _ _).2 hpre) (Option.map_eq_none_iff.1 h)
  · intro h
    cases hl : m.longestPrefix path with
    | none => rfl
    | some k =>
      obtain ⟨hk, hpre, -⟩ := (longestPrefix_iff m path k).1 hl
      exact absurd hpre (h k hk)

/-- The two searches pick one entry. -/
theorem resolveMount_eq (m : MountTable) (path : Str) :
    m.resolveMount path = (m.longestPrefix path).bind fun k => m[k]? := by
  cases hfind : m.findPrefix path with
  | none => simp [resolveMount, longestPrefix, hfind]
  | some e =>
    obtain ⟨k, t⟩ := e
    simp [resolveMount, longestPrefix, hfind, (findPrefix_mem hfind).1]

end MountTable

/-- In every table that calls lead to: both searches pick the longest of the keys that are prefixes of the path and end at
a slash, and a call that fails changes nothing. -/
theorem lookup_longest (calls : List MountCall) (path : Str) :
    (∀ k, (Calls.after calls).longestPrefix path = some k ↔
      (Calls.after calls).contains k = true ∧ SlashPrefix k (canonicalizeMountPath path) ∧
        ∀ k', (Calls.after calls).contains k' = true → SlashPrefix k' (canonicalizeMountPath path) → k'.length ≤ k.length) ∧
    ((Calls.after calls).longestPrefix path = none ↔
      ∀ k, (Calls.after calls).contains k = true → ¬ SlashPrefix k (canonicalizeMountPath path)) ∧
    ((Calls.after calls).resolveMount path = ((Calls.after calls).longestPrefix path).bind fun k => (Calls.after calls)[k]?) ∧
    ∀ (call : MountCall) (e : FsError), (Calls.serve (Calls.after calls) call).1 = .error e →
      (Calls.serve (Calls.after calls) call).2.toList = (Calls.after calls).toList :=
  ⟨MountTable.longestPrefix_iff _ path, MountTable.longestPrefix_eq_none _ path, MountTable.resolveMount_eq _ path,
    fun _ _ h => Calls.serve_error h⟩

end Koros.Vfs
