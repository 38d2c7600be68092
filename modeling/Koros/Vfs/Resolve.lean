import Koros.Lib.Maps
import Koros.Vfs.Mount

/-!
# Paths across mounts

What a path names: a walk from the root mount, one component after the other, that enters a mounted filesystem when it
reaches the path of a mount and leaves it again by `..` at its root (`MountTable.walk`). `mount::resolve` picks the mount
from the text of the path and then stays in its filesystem.

- `findPrefix_spec`: the mount it picks is the longest of the mount paths that are prefixes of the text;
- `resolve_eq_walk`: the two agree where the walk reaches that mount and stays in it;
- `resolve_ne_walk`: paths where they do not.
-/
set_option autoImplicit false

namespace Koros.Vfs

open Koros.Lib

/-! ## The walk -/

/-- The text of a path given by its components. -/
def mountKey (names : List Str) : Str := if names = [] then ['/'] else names.flatMap ('/' :: ·)

/-- Where a walk is: in the mount at a path, at a node of its tree. -/
structure Place where
  mount : List Str
  node : List Str
deriving DecidableEq, Repr

namespace Place

def path (x : Place) : List Str := x.mount ++ x.node

def inode (x : Place) : Str × List Str := (mountKey x.mount, x.node)

end Place

namespace MountTable

/-- The place of a directory that is not at the root of a mount that covers it. -/
def placeOf (m : MountTable) (names : List Str) : Place :=
  names.foldl (fun x name =>
    if m.contains (mountKey (x.path ++ [name])) then ⟨x.path ++ [name], []⟩ else ⟨x.mount, x.node ++ [name]⟩) ⟨[], []⟩

/-- The parent of a mount point; the root is its own parent. -/
def above (m : MountTable) (mount : List Str) : Place := if mount = [] then ⟨[], []⟩ else m.placeOf mount.dropLast

def walkStep (m : MountTable) (x : Place) (name : Str) : Except FsError Place :=
  if name = ['.'] then .ok x
  else
    match m[mountKey x.mount]? with
    | none => .error .notFound
    | some t =>
      if name = ['.', '.'] then
        (t.lookup x.node name).map fun up => if x.node = [] then m.above x.mount else ⟨x.mount, up⟩
      else if m.contains (mountKey (x.path ++ [name])) ∧ t.kind x.node = some .directory then
        .ok ⟨x.path ++ [name], []⟩
      else (t.lookup x.node name).map fun next => ⟨x.mount, next⟩

def walkFrom (m : MountTable) (x : Place) (names : List Str) : Except FsError Place := names.foldlM m.walkStep x

/-- The walk from the root mount. -/
def walk (m : MountTable) (names : List Str) : Except FsError Place :=
  if m.contains ['/'] then m.walkFrom ⟨[], []⟩ names else .error .notFound

end MountTable

/-! ## Components -/

theorem components_trimEnd (s : Str) : components (trimEnd s) = components s := by
  induction s using List.reverseRecOn with
  | nil => rfl
  | append_singleton s c ih =>
    by_cases hc : c = '/'
    · subst hc
      rw [components_concat_slash, ← ih]
      simp [trimEnd]
    · simp [trimEnd, hc]

theorem components_canonicalize (path : Str) : components (canonicalizeMountPath path) = components path := by
  rw [← components_trimEnd path]
  unfold canonicalizeMountPath
  simp only
  split
  · rename_i h
    rw [h]
    decide
  split
  · rfl
  · exact components_cons_slash _

/-- A tree without symbolic links. -/
def Tree.Plain (t : Tree) : Prop := ∀ node, t.kind node ≠ some .symlink

namespace Tree

variable {node next : List Str} {name : Str}

theorem lookup_up (t : Tree) (h : t.lookup node ['.', '.'] = .ok next) : next = node.dropLast := by
  unfold lookup at h
  split at h
  · simpa using h.symm
  · cases h
  · cases h

theorem lookup_down (t : Tree) (hdot : name ≠ ['.']) (hup : name ≠ ['.', '.']) (h : t.lookup node name = .ok next) :
    next = node ++ [name] := by
  unfold lookup at h
  split at h
  · rw [if_neg hdot, if_neg hup] at h
    split at h
    · exact (Except.ok.inj h).symm
    · cases h
  · cases h
  · cases h

theorem resolvePath_plain {t : Tree} (ht : t.Plain) (path : Str) :
    t.resolvePath path = (components path).foldlM t.graph.enter [] :=
  Symlinks.resolvePath_plain t.graph (fun node => congrArg Except.ok (decide_eq_false (ht node))) [] path

end Tree

/-! ## The mount that is picked -/

namespace MountTable

variable {m : MountTable} {path k : Str} {t : Tree}

theorem findPrefix_mem (h : m.findPrefix path = some (k, t)) :
    m[k]? = some t ∧ isMountPrefix k (canonicalizeMountPath path) = true := by
  have hmem := List.mem_of_find?_eq_some h
  rw [List.mem_reverse, List.mem_filter] at hmem
  have hpre := List.find?_some (p := fun e : Str × Tree => isMountPrefix e.1 (canonicalizeMountPath path)) h
  exact ⟨Std.TreeMap.mem_toList_iff_getElem?_eq_some.1 hmem.1, hpre⟩

/-- A prefix that ends at a component, and what comes after it. -/
theorem isMountPrefix_iff {k c : Str} : isMountPrefix k c = true ↔
    ∃ r, c = k ++ r ∧ (r = [] ∨ r.head? = some '/' ∨ k.getLast? = some '/') := by
  unfold isMountPrefix
  constructor
  · intro h
    rcases Bool.or_eq_true_iff.1 h with h | h
    · exact ⟨[], by simpa using h, .inl rfl⟩
    · obtain ⟨hpre, hend⟩ := Bool.and_eq_true_iff.1 h
      obtain ⟨r, rfl⟩ := List.isPrefixOf_iff_prefix.1 hpre
      refine ⟨r, rfl, .inr ?_⟩
      rcases Bool.or_eq_true_iff.1 hend with hend | hend
      · exact .inr (by simpa using hend)
      · exact .inl (by simpa using hend)
  · rintro ⟨r, rfl, hr | hr | hr⟩
    · simp [hr]
    · simp [hr, List.isPrefixOf_iff_prefix]
    · simp [hr, List.isPrefixOf_iff_prefix]

/-- The components of a path are those of the mount path and those behind it. -/
theorem components_relative (hk : isMountPrefix k (canonicalizeMountPath path) = true) :
    components path = components k ++ components (relative path k) := by
  obtain ⟨r, hr, hend⟩ := isMountPrefix_iff.1 hk
  have hrel : relative path k = r.dropWhile (· = '/') := by simp [relative, hr, List.isPrefixOf_iff_prefix]
  rw [← components_canonicalize path, hr, components_append hend, hrel, components_dropWhile]

theorem compare_append (k r : Str) : compare k (k ++ r) ≠ .gt := by
  induction k with
  | nil => cases r <;> simp [compare, List.compareLex]
  | cons c k ih => simp [List.compare_cons_cons, ih]

theorem compare_append_lt (k : Str) {r : Str} (hr : r ≠ []) : compare k (k ++ r) = .lt := by
  induction k with
  | nil =>
    cases r with
    | nil => exact absurd rfl hr
    | cons c r => simp [compare, List.compareLex]
  | cons c k ih => simp [List.compare_cons_cons, ih]

/-- **The mount that is picked is the longest one whose path is a prefix of the text.** -/
theorem findPrefix_spec (h : m.findPrefix path = some (k, t)) {k' : Str} (hk' : m.contains k' = true)
    (hpre : isMountPrefix k' (canonicalizeMountPath path) = true) : k'.length ≤ k.length := by
  obtain ⟨t', ht'⟩ := (contains_iff m k').1 hk'
  obtain ⟨r', hr', -⟩ := isMountPrefix_iff.1 hpre
  obtain ⟨r, hr, -⟩ := isMountPrefix_iff.1 (findPrefix_mem h).2
  obtain ⟨-, before, after, hsplit, hbefore⟩ := List.find?_eq_some_iff_append.1 h
  have hmem : (k', t') ∈ before ++ (k, t) :: after := by
    rw [← hsplit, List.mem_reverse, List.mem_filter]
    refine ⟨Std.TreeMap.mem_toList_iff_getElem?_eq_some.2 ht', ?_⟩
    rw [hr']
    simpa using compare_append k' r'
  -- The keys after the one that is picked are below it, and a proper prefix is below the longer text.
  have hordered : (before ++ (k, t) :: after).Pairwise fun a b => compare b.1 a.1 = .lt := by
    rw [← hsplit, List.pairwise_reverse]
    exact (Std.TreeMap.ordered_keys_toList).filter _
  rcases List.mem_append.1 hmem with hin | hin
  · exact absurd hpre (by simpa using hbefore _ hin)
  rcases List.mem_cons.1 hin with heq | hin
  · cases heq
    exact Nat.le_refl _
  have hlt : compare k' k = .lt := (List.pairwise_cons.1 (List.pairwise_append.1 hordered).2.1).1 _ hin
  by_contra hlen
  obtain ⟨u, hu⟩ : ∃ u, k' = k ++ u := by
    have hk : k <+: k' := List.prefix_of_prefix_length_le ⟨r, hr.symm⟩ ⟨r', hr'.symm⟩ (by omega)
    obtain ⟨u, hu⟩ := hk
    exact ⟨u, hu.symm⟩
  have hne : u ≠ [] := by
    rintro rfl
    simp [hu] at hlen
  have hgt := compare_append_lt k hne
  rw [← hu] at hgt
  exact Std.OrientedCmp.not_lt_of_lt hlt hgt

/-- A path has a mount if the root has one. -/
theorem findPrefix_isSome (path : Str) (hroot : m.contains ['/'] = true) :
    ∃ k t, m.findPrefix path = some (k, t) := by
  obtain ⟨t, ht⟩ := (contains_iff m _).1 hroot
  obtain ⟨r, hr⟩ : ∃ r, canonicalizeMountPath path = '/' :: r := by
    unfold canonicalizeMountPath
    simp only
    split
    · exact ⟨[], rfl⟩
    split
    · rename_i hne hhead
      obtain ⟨c, r, hcr⟩ := List.exists_cons_of_ne_nil hne
      exact ⟨r, by simpa [hcr] using hhead⟩
    · exact ⟨_, rfl⟩
  have hpre : isMountPrefix ['/'] (canonicalizeMountPath path) = true :=
    isMountPrefix_iff.2 ⟨r, by simp [hr], .inr (.inr rfl)⟩
  have hsome : ((m.toList.filter fun e => compare e.1 (canonicalizeMountPath path) ≠ .gt).reverse.find?
      fun e => isMountPrefix e.1 (canonicalizeMountPath path)).isSome = true := by
    rw [List.find?_isSome]
    refine ⟨(['/'], t), ?_, hpre⟩
    rw [List.mem_reverse, List.mem_filter]
    refine ⟨Std.TreeMap.mem_toList_iff_getElem?_eq_some.2 ht, ?_⟩
    rw [hr]
    simpa using compare_append ['/'] r
  obtain ⟨⟨k, t'⟩, hk⟩ := Option.isSome_iff_exists.1 hsome
  exact ⟨k, t', hk⟩

/-! ## Agreement -/

/-- The components stay in the mount at `g`: they do not leave it by `..` and do not reach another mount. -/
def Stays (m : MountTable) (g : List Str) : List Str → List Str → Prop
  | _, [] => True
  | node, name :: rest =>
    if name = ['.'] then m.Stays g node rest
    else if name = ['.', '.'] then (node = [] → g = []) ∧ m.Stays g node.dropLast rest
    else m.contains (mountKey (g ++ node ++ [name])) = false ∧ m.Stays g (node ++ [name]) rest

instance Stays.decidable (m : MountTable) (g : List Str) : (node names : List Str) → Decidable (m.Stays g node names)
  | _, [] => .isTrue trivial
  | node, name :: rest =>
    have := Stays.decidable m g node rest
    have := Stays.decidable m g node.dropLast rest
    have := Stays.decidable m g (node ++ [name]) rest
    inferInstanceAs (Decidable (if name = ['.'] then m.Stays g node rest
      else if name = ['.', '.'] then (node = [] → g = []) ∧ m.Stays g node.dropLast rest
      else m.contains (mountKey (g ++ node ++ [name])) = false ∧ m.Stays g (node ++ [name]) rest))

/-- The walk of the components is the walk of one filesystem. -/
theorem walkFrom_eq_enter {g : List Str} (ht : m[mountKey g]? = some t) (node names : List Str)
    (hstays : m.Stays g node names) : (names.foldlM t.graph.enter node).map (Place.mk g) = m.walkFrom ⟨g, node⟩ names := by
  induction names generalizing node with
  | nil => rfl
  | cons name rest ih =>
    have hcons : m.walkFrom ⟨g, node⟩ (name :: rest) = m.walkStep ⟨g, node⟩ name >>= fun x => m.walkFrom x rest := rfl
    rw [hcons, List.foldlM_cons]
    unfold Stays at hstays
    unfold Symlinks.Graph.enter walkStep
    simp only [ht]
    by_cases hdot : name = ['.']
    · rw [if_pos hdot] at hstays
      rw [if_pos hdot, if_pos hdot]
      exact ih node hstays
    rw [if_neg hdot] at hstays
    rw [if_neg hdot, if_neg hdot]
    by_cases hup : name = ['.', '.']
    · rw [if_pos hup] at hstays
      rw [if_pos hup]
      change Except.map _ (t.lookup node name >>= _) = _
      cases hl : t.lookup node name with
      | error e => rfl
      | ok next =>
        obtain rfl : next = node.dropLast := t.lookup_up (hup ▸ hl)
        have hplace : (if node = [] then m.above g else ⟨g, node.dropLast⟩) = Place.mk g node.dropLast := by
          split
          · rename_i hnode
            simp [above, hstays.1 hnode, hnode]
          · rfl
        simp only [Except.map, hplace]
        exact ih _ hstays.2
    · rw [if_neg hup] at hstays
      rw [if_neg hup]
      have hfree : ¬(m.contains (mountKey (Place.path ⟨g, node⟩ ++ [name])) = true ∧ t.kind node = some .directory) := by
        rintro ⟨hmount, -⟩
        exact absurd (hstays.1.symm.trans hmount) (by decide)
      rw [if_neg hfree]
      change Except.map _ (t.lookup node name >>= _) = _
      cases hl : t.lookup node name with
      | error e => rfl
      | ok next =>
        obtain rfl : next = node ++ [name] := t.lookup_down hdot hup hl
        exact ih _ hstays.2

theorem walkFrom_append (x : Place) (names rest : List Str) :
    m.walkFrom x (names ++ rest) = m.walkFrom x names >>= fun y => m.walkFrom y rest := by
  simp [walkFrom, List.foldlM_append]

/-- The mount at `k` can be reached: the walk along its own path enters it. -/
def Reached (m : MountTable) (k : Str) (g : List Str) : Prop :=
  mountKey g = k ∧ m.walk (components k) = .ok ⟨g, []⟩

/-- `resolve` where nothing is a link: the lookups from the root of the mount that is picked. -/
def lookups (m : MountTable) (path : Str) : Except FsError (Str × List Str) :=
  match m.findPrefix path with
  | none => .error .notFound
  | some (k, t) => ((components (relative path k)).foldlM t.graph.enter []).map fun node => (k, node)

theorem resolve_plain (hplain : ∀ (k : Str) (t : Tree), m[k]? = some t → t.Plain) (path : Str) :
    m.resolve path = m.lookups path := by
  cases hfind : m.findPrefix path with
  | none => simp [resolve, resolveMount, lookups, hfind]
  | some e =>
    obtain ⟨k, t⟩ := e
    have hnames := Tree.resolvePath_plain (hplain k t (findPrefix_mem hfind).1) (relative path k)
    simp [resolve, resolveMount, longestPrefix, lookups, hfind, hnames]

/-- **`mount::resolve` finds what the walk finds, where the walk reaches the mount that is picked and stays in it.** -/
theorem resolve_eq_walk (m : MountTable) (path : Str) (hplain : ∀ (k : Str) (t : Tree), m[k]? = some t → t.Plain)
    (hin : ∀ k, m.longestPrefix path = some k →
      ∃ g, m.Reached k g ∧ m.Stays g [] (components (relative path k))) :
    m.resolve path = (m.walk (components path)).map Place.inode := by
  cases hfind : m.findPrefix path with
  | none =>
    have hroot : m.contains ['/'] = false := by
      by_contra hroot
      obtain ⟨k, t, hk⟩ := findPrefix_isSome path (by simpa using hroot)
      simp [hfind] at hk
    simp [resolve_plain hplain, lookups, hfind, walk, hroot, Except.map]
  | some e =>
    obtain ⟨k, t⟩ := e
    obtain ⟨ht, hpre⟩ := findPrefix_mem hfind
    have hlongest : m.longestPrefix path = some k := by simp [longestPrefix, hfind]
    obtain ⟨g, ⟨hkey, hwalk⟩, hstays⟩ := hin k hlongest
    have hroot : m.contains ['/'] = true := by
      by_contra hroot
      simp [walk, hroot] at hwalk
    have hagree := walkFrom_eq_enter (hkey ▸ ht) [] _ hstays
    have hfrom : m.walkFrom ⟨[], []⟩ (components k) = .ok ⟨g, []⟩ := by simpa [walk, hroot] using hwalk
    calc m.resolve path
        = ((components (relative path k)).foldlM t.graph.enter []).map fun node => (k, node) := by
          rw [resolve_plain hplain, lookups, hfind]
      _ = (m.walkFrom ⟨g, []⟩ (components (relative path k))).map Place.inode := by
          rw [← hagree]
          cases (components (relative path k)).foldlM t.graph.enter [] <;> simp [Except.map, Place.inode, hkey]
      _ = (m.walk (components path)).map Place.inode := by
          rw [components_relative hpre, walk, if_pos hroot, walkFrom_append, hfrom]
          rfl

/-! ## Two mounts -/

/-- A tree of directories. -/
def ofDirs (dirs : List (List Str)) : Tree where
  kind node := if node ∈ [] :: dirs then some .directory else none
  target _ := []
  root_dir := by simp

theorem ofDirs_plain (dirs : List (List Str)) : (ofDirs dirs).Plain := by
  intro node
  simp only [ofDirs]
  split <;> simp

/-- Filesystems without links in every place of the table. -/
theorem insert_plain {dirs : List (List Str)} (h : ∀ (k : Str) (t : Tree), m[k]? = some t → t.Plain) (path k : Str) (t : Tree)
    (ht : (m.insert path (ofDirs dirs))[k]? = some t) : t.Plain := by
  rw [getElem?_insertKey] at ht
  split at ht
  · cases ht
    exact ofDirs_plain dirs
  · exact h k t ht

theorem empty_plain (k : Str) (t : Tree) (ht : (∅ : MountTable)[k]? = some t) : t.Plain := by simp at ht

/-- The table after a mount at the root and one at the path. -/
def mountTwo (path : Str) : Except FsError MountTable := do
  let m ← mount ∅ ['/'] (ofDirs [["mnt".toList]])
  m.mount path (ofDirs [["docs".toList]])

/-- The filesystem with the directory `docs` is mounted at `/mnt`. -/
def atMnt : MountTable :=
  ((∅ : MountTable).insert ['/'] (ofDirs [["mnt".toList]])).insert "/mnt".toList (ofDirs [["docs".toList]])

theorem atMnt_plain : ∀ (k : Str) (t : Tree), atMnt[k]? = some t → t.Plain := insert_plain (insert_plain empty_plain _) _

theorem resolve_eq_walk_atMnt :
    mountTwo "/mnt".toList = .ok atMnt ∧
      atMnt.resolve "/mnt//docs/../docs/.".toList = .ok ("/mnt".toList, ["docs".toList]) ∧
      atMnt.resolve "/mnt//docs/../docs/.".toList =
        (atMnt.walk (components "/mnt//docs/../docs/.".toList)).map Place.inode := by
  refine ⟨rfl, ?_, resolve_eq_walk atMnt _ atMnt_plain ?_⟩
  · rw [resolve_plain atMnt_plain]
    decide +kernel
  · intro k hk
    obtain rfl : "/mnt".toList = k := Option.some.inj (Eq.trans (by decide +kernel) hk)
    exact ⟨["mnt".toList], ⟨by decide +kernel, by decide +kernel⟩, by decide +kernel⟩

/-- Paths that name something else than what is found: `..` at the root of a mount, a second slash before its path, and a
mount whose parent does not exist. -/
theorem resolve_ne_walk :
    (∃ m, mountTwo "/mnt".toList = .ok m ∧
      m.resolve "/mnt/..".toList = .ok ("/mnt".toList, []) ∧
      (m.walk (components "/mnt/..".toList)).map Place.inode = .ok (['/'], []) ∧
      m.resolve "//mnt".toList = .ok (['/'], ["mnt".toList]) ∧
      (m.walk (components "//mnt".toList)).map Place.inode = .ok ("/mnt".toList, [])) ∧
    ∃ m, mountTwo "/a/b".toList = .ok m ∧ m.resolve "/a/b".toList = .ok ("/a/b".toList, []) ∧
      (m.walk (components "/a/b".toList)).map Place.inode = .error .notFound := by
  refine ⟨⟨_, rfl, ?_⟩, ⟨_, rfl, ?_⟩⟩
  · rw [resolve_plain (insert_plain (insert_plain empty_plain _) _), resolve_plain (insert_plain (insert_plain empty_plain _) _)]
    decide +kernel
  · rw [resolve_plain (insert_plain (insert_plain empty_plain _) _)]
    decide +kernel

end MountTable

end Koros.Vfs
