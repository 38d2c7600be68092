import Koros.Mm.AddressSpace
import Koros.Mmu.Engine
import Mathlib.Data.List.Nodup

/-!
# Page tables of user address spaces

`Tree F s root P tables` says that the page table at `root` maps the pages `P` and consists of the frames `tables`. All the
lemmas are about calls that did not panic, beside frames `rest` that the page table does not own and that keep their
contents (`Keeps`).

- `map_tree`, `unmap_tree`: one page through the engine;
- `unmapAll_tree`, `mapAll_tree`, `allocFresh_pool`, `freeAll_pool`: the loops over pages.
-/
set_option autoImplicit false

namespace Koros.Mm

open Koros.Frame Koros.Mmu

/-! ## What a page table owns -/

/-- The contents and the metadata of the frames are the same. -/
def Keeps (frames : List Nat) (s s' : Memory) : Prop :=
  ∀ f ∈ frames, s'.mem f = s.mem f ∧ s'.metadata (f / pageSize) = s.metadata (f / pageSize)

namespace Keeps

variable {frames frames' : List Nat} {s s₁ s₂ : Memory}

theorem refl (frames : List Nat) (s : Memory) : Keeps frames s s := fun _ _ => ⟨rfl, rfl⟩

theorem trans (h₁ : Keeps frames s s₁) (h₂ : Keeps frames s₁ s₂) : Keeps frames s s₂ :=
  fun f hf => ⟨(h₂ f hf).1.trans (h₁ f hf).1, (h₂ f hf).2.trans (h₁ f hf).2⟩

theorem mono (h : Keeps frames s s₁) (hsub : ∀ f ∈ frames', f ∈ frames) : Keeps frames' s s₁ :=
  fun f hf => h f (hsub f hf)

/-- A page of another frame is overwritten. -/
theorem of_update {p : Nat} {x : Nat → Nat} (hp : p ∉ frames) (hmem : s₁.mem = Function.update s.mem p x)
    (hmeta : s₁.metadata = s.metadata) : Keeps frames s s₁ := by
  intro f hf
  rw [hmem, hmeta, Function.update_of_ne (by rintro rfl; exact hp hf)]
  exact ⟨rfl, rfl⟩

end Keeps

/-- The page table at `root` maps `P` and consists of the frames `tables`. -/
def Tree (F : PteFormat) (s : Memory) (root : Nat) (P : Pages) (tables : List Nat) : Prop :=
  ∃ T high, Rep F lowerHalf root high s T P ∧ Lists T tables ∧ Encoded F P

theorem rep_of_keeps {F : PteFormat} {E : Nat → Prop} {root : Nat} {high : Nat → Nat} {s s' : Memory} {T : Tables} {P : Pages}
    (h : Rep F E root high s T P) (hk : ∀ {l p f : Nat}, T l p = some f →
      s'.mem f = s.mem f ∧ s'.metadata (f / pageSize) = s.metadata (f / pageSize)) : Rep F E root high s' T P := by
  have hstat : ∀ {l p f : Nat}, T l p = some f → ∀ i, s'.stat f i = s.stat f i := fun hf i => by
    rw [Memory.stat, Memory.stat, (hk hf).2]
  refine { h with toOutline := h.toOutline.congr fun hf => (hk hf).1, upper := ?_, stat_ne := ?_ }
  · intro i hi hi'
    rw [(hk h.root_eq).1]
    exact h.upper i hi hi'
  · intro p f hf i hi hP
    rw [hstat hf]
    exact h.stat_ne hf i hi hP

section

variable {F : PteFormat} {s s' : Memory} {root bound : Nat} {P : Pages} {tables rest : List Nat} {other : List Extent}

theorem Tree.keeps (h : Tree F s root P tables) (hk : Keeps tables s s') : Tree F s' root P tables := by
  obtain ⟨T, high, hrep, hT, hE⟩ := h
  exact ⟨T, high, rep_of_keeps hrep fun hf => hk _ ((hT _).2 ⟨_, _, hf⟩), hT, hE⟩

/-! ## One page -/

section Page

variable {va : Nat}

/-- Frames of the pool apart from the tables are not touched by what changes tables only. -/
theorem keeps_of_tables {a : FrameAllocator} {own : List Nat} (hpool : Pool bound a (own ++ rest) other)
    (hmem : ∀ f, f ∉ own → s'.mem f = s.mem f)
    (hmeta : ∀ d, (∀ f ∈ own, f / pageSize ≠ d) → s'.metadata d = s.metadata d) : Keeps rest s s' := by
  intro f hf
  have hne : f ∉ own := fun ho => (List.disjoint_of_nodup_append hpool.nodup) ho hf
  refine ⟨hmem f hne, hmeta _ fun g hg => ?_⟩
  have hg' := hpool.placed (List.mem_append_left rest hg)
  have hf' := hpool.placed (List.mem_append_right own hf)
  exact div_ne_of_aligned hg'.1 hf'.1 (by rintro rfl; exact hne hg)

/-- The tables that are left, beside the frames that are not tables. -/
theorem shrunk_lists {freed frames' : List Nat} {T T' : Tables} {v level : Nat} (hT : Lists T tables)
    (hpool : Pool bound s.frames (tables ++ rest) other)
    (hsh : Shrunk bound other v level s T (tables ++ rest) s' T' freed frames') :
    ∃ tables', Lists T' tables' ∧ Pool bound s'.frames (tables' ++ rest) other ∧
      (tables ++ rest).length = freed.length + (tables' ++ rest).length := by
  have hnd := hpool.nodup
  have hndf := hsh.perm.nodup_iff.1 hnd
  have hperm := perm_append_filter (List.nodup_append.1 hnd).1 (List.nodup_append.1 hndf).1
    fun f hf => (hT f).2 (hsh.freed_table f hf)
  have hperm' : frames'.Perm (tables.filter (· ∉ freed) ++ rest) := by
    have h₁ : (freed ++ frames').Perm (freed ++ (tables.filter (· ∉ freed) ++ rest)) := by
      rw [← List.append_assoc]
      exact hsh.perm.symm.trans (hperm.symm.append_right rest)
    exact (List.perm_append_left_iff freed).1 h₁
  refine ⟨tables.filter (· ∉ freed), fun f => ?_, hsh.pool.perm hperm', ?_⟩
  · rw [List.mem_filter, decide_eq_true_iff]
    constructor
    · rintro ⟨hf, hfr⟩
      obtain ⟨l, p, hf⟩ := (hT f).1 hf
      exact ⟨l, p, (hsh.kept_or_freed hf).resolve_right fun hr => hfr hr.1⟩
    · rintro ⟨l, p, hf⟩
      exact ⟨(hT f).2 ⟨l, p, hsh.sub hf⟩, hsh.gone hf⟩
  · rw [hsh.perm.length_eq, List.length_append, hperm'.length_eq]

/-- The tables after some were added. -/
theorem grown_lists {new frames : List Nat} {T T' : Tables} {v level : Nat} (hT : Lists T tables)
    (hg : Grown bound other v level s T frames s' T' new) : Lists T' (new ++ tables) := by
  intro f
  rw [List.mem_append]
  constructor
  · rintro (hf | hf)
    · exact hg.new_table f hf
    · obtain ⟨l, p, hf⟩ := (hT f).1 hf
      exact ⟨l, p, hg.keep hf⟩
  · rintro ⟨l, p, hf⟩
    rcases hg.old_or_new hf with hf | hn
    · exact Or.inr ((hT f).2 ⟨l, p, hf⟩)
    · exact Or.inl hn.1

theorem grown_keeps {new : List Nat} {T T' : Tables} {v level : Nat} (hT : Lists T tables)
    (hg : Grown bound other v level s T (tables ++ rest) s' T' new) : Keeps rest s s' := by
  have hpool : Pool bound s'.frames ((new ++ tables) ++ rest) other := by rw [List.append_assoc]; exact hg.pool
  refine keeps_of_tables hpool (fun f hf => ?_) fun d hd => hg.meta_eq d fun l p f hf => ?_
  · rw [List.mem_append, not_or] at hf
    exact hg.mem_eq f hf.1 fun l p hfT => hf.2 ((hT f).2 ⟨l, p, hfT⟩)
  · exact hd f ((grown_lists hT hg f).2 ⟨l, p, hf⟩)

theorem shrunk_keeps {freed frames' : List Nat} {T T' : Tables} {v level : Nat} (hT : Lists T tables)
    (hpool : Pool bound s.frames (tables ++ rest) other)
    (hsh : Shrunk bound other v level s T (tables ++ rest) s' T' freed frames') : Keeps rest s s' :=
  keeps_of_tables hpool (fun f hf => hsh.mem_eq f fun l p hfT => hf ((hT f).2 ⟨l, p, hfT⟩))
    fun d hd => hsh.meta_eq d fun l p f hf => hd f ((hT f).2 ⟨l, p, hf⟩)

theorem map_tree (hF : F.Lawful) (hb : bound ≤ 2 ^ 36) (h : Tree F s root P tables)
    (hpool : Pool bound s.frames (tables ++ rest) other) (halign : va % pageSize = 0) (hlow : Own F lowerHalf (va / pageSize))
    {phys : Nat} (hphys : FrameOk phys) {flags : MappingFlags} (henc : F.encodes flags) (hP : P (va / pageSize) = none)
    {r : Except MapError Unit} (he : AddrSpace.map F s root va phys flags .page4K = some (r, s'))
    (hr : r ≠ .error .outOfMemory) :
    r = .ok () ∧ ∃ tables', Tree F s' root (Function.update P (va / pageSize) (some (phys, flags))) tables' ∧
      Pool bound s'.frames (tables' ++ rest) other ∧ Keeps rest s s' := by
  obtain ⟨T, high, hrep, hT, hE⟩ := h
  have hroot : T F.top (region (F.top + 1) (va / pageSize)) = some root := by
    rw [hlow.region_top]; exact hrep.root_eq
  have hlock : AddrSpace.lock F s root va (va + MapSize.page4K.bytes) = some () := by
    cases hl : AddrSpace.lock F s root va (va + MapSize.page4K.bytes) with
    | some _ => rfl
    | none => simp [AddrSpace.map, hl] at he
  have hspan : span 0 = pageSize := rfl
  have he' : Memory.mapAt F va phys flags 0 F.top root s = some (r, s') := by
    unfold PteFormat.top
    simpa only [AddrSpace.map, hlock, Memory.cursorMap, MapSize.level, hspan, halign, hphys.1, ne_eq,
      not_true_eq_false, or_self, if_false, Option.bind_eq_bind, Option.bind_some] using he
  have hok : TableOk root := tableOk_of_lock (by rw [hlock]; simp)
  obtain ⟨r', s₁, T', P', new, he₁, hrep', hg, -, hres, -⟩ := mapAt_spec hF hphys flags hlow hP hb F.top hrep hpool
    (fun hf => List.mem_append_left _ ((hT _).2 ⟨_, _, hf⟩)) hroot hok (Or.inr (by rw [he']; simp))
  obtain ⟨rfl, rfl⟩ : r = r' ∧ s' = s₁ := by rw [he'] at he₁; simpa using he₁
  rcases hres with ⟨rfl, -, rfl⟩ | ⟨rfl, -, -⟩
  swap
  · exact absurd rfl hr
  have hpool' : Pool bound s'.frames ((new ++ tables) ++ rest) other := by rw [List.append_assoc]; exact hg.pool
  exact ⟨rfl, new ++ tables, ⟨T', high, hrep', grown_lists hT hg, hE.update (by rintro _ _ ⟨⟩; exact henc)⟩, hpool', grown_keeps hT hg⟩

theorem unmap_tree (hF : F.Lawful) (h : Tree F s root P tables) (hpool : Pool bound s.frames (tables ++ rest) other)
    (halign : va % pageSize = 0) (hlow : Own F lowerHalf (va / pageSize)) {phys : Nat} {flags : MappingFlags}
    (hP : P (va / pageSize) = some (phys, flags)) {r : Except MapError Nat}
    (he : AddrSpace.unmap F s root va .page4K = some (r, s')) :
    r = .ok phys ∧ ∃ tables', Tree F s' root (Function.update P (va / pageSize) none) tables' ∧
      Pool bound s'.frames (tables' ++ rest) other ∧ Keeps rest s s' := by
  obtain ⟨T, high, hrep, hT, hE⟩ := h
  have hroot : T F.top (region (F.top + 1) (va / pageSize)) = some root := by
    rw [hlow.region_top]; exact hrep.root_eq
  have hw : WalkOk T (va / pageSize) F.top := by
    refine walkOk_of_queryAt hF hrep hlow (by rw [hP]; simp) F.top .invalid hroot (Nat.le_refl _) ?_
    intro hnone
    have hq : s.query F root va = none := hnone
    cases hl : AddrSpace.lock F s root va (va + pageSize) <;> simp [AddrSpace.unmap, AddrSpace.translate, hq, hl] at he
  obtain ⟨s₁, T', freed, frames', he₁, hrep', hsh, -, -, -⟩ := unmapIn_spec hF hlow halign hP (hE _ _ _ hP) hrep hpool
    (fun hf => List.mem_append_left _ ((hT _).2 ⟨_, _, hf⟩)) 0 F.top hw hroot (Nat.le_refl _)
  rw [hlow.region_top, Nat.zero_mul] at he₁
  have hun := unmap_eq hF hrep hlow hw halign hP he₁
  obtain ⟨rfl, rfl⟩ : r = .ok phys ∧ s' = s₁ := by rw [he] at hun; simpa using hun
  obtain ⟨tables', hT', hpool', -⟩ := shrunk_lists hT hpool hsh
  exact ⟨rfl, tables', ⟨T', high, hrep', hT', hE.update (fun _ _ h => by cases h)⟩, hpool', shrunk_keeps hT hpool hsh⟩

end Page

/-! ## New roots -/

/-- A new root takes a frame, which is empty but for the upper entries of the active root. -/
theorem empty_cases {m m' : Machine} {r : Except MapError AddressSpace} (he : AddressSpace.empty m = some (r, m')) :
    m'.active = m.active ∧ ∃ q, allocFrame m.mem.frames = some (q, m'.mem.frames) ∧
      (q = none ∧ r = .error .outOfMemory ∧ m'.mem.mem = m.mem.mem ∧ m'.mem.metadata = m.mem.metadata ∨
        ∃ root, q = some root ∧ r = .ok ⟨root, true, ∅⟩ ∧ m'.mem.metadata = m.mem.metadata ∧
          (∀ f, f ≠ root → m'.mem.mem f = m.mem.mem f) ∧
          ∀ i, m'.mem.mem root i = 0 ∨ 256 ≤ i ∧ i < ptEntries ∧ m'.mem.mem root i = m.mem.mem m.active i) := by
  simp only [AddressSpace.empty, newUser, Option.bind_eq_bind, Option.bind_eq_some_iff] at he
  obtain ⟨⟨r₁, m₁⟩, ⟨⟨q, a⟩, hal, he₁⟩, he⟩ := he
  cases q with
  | none =>
    cases he₁
    cases he
    exact ⟨rfl, none, hal, Or.inl ⟨rfl, rfl, rfl, rfl⟩⟩
  | some root =>
    cases he₁
    cases he
    refine ⟨rfl, some root, hal, Or.inr ⟨root, rfl, rfl, rfl, fun f hf => ?_, fun i => ?_⟩⟩
    · exact (Function.update_of_ne hf _ _).trans (Function.update_of_ne hf _ _)
    · simp only [Function.update_self, mem_zeroPage]
      by_cases hi : 256 ≤ i ∧ i < ptEntries
      · rw [if_pos hi]
        split
        · exact Or.inl rfl
        · exact Or.inr ⟨hi.1, hi.2, rfl⟩
      · rw [if_neg hi]
        exact Or.inl rfl

/-! ## Loops -/

/-- `P` with the listed entries replaced, from left to right. -/
def setAll (P : Pages) (l : List (Nat × Option (Nat × MappingFlags))) : Pages :=
  l.foldl (fun P (v, x) => Function.update P v x) P

theorem setAll_of_notMem {l : List (Nat × Option (Nat × MappingFlags))} {v : Nat} (hv : v ∉ l.map Prod.fst) :
    setAll P l v = P v := by
  induction l generalizing P with
  | nil => rfl
  | cons x l ih =>
    rw [List.map_cons, List.mem_cons, not_or] at hv
    show setAll (Function.update P x.1 x.2) l v = P v
    rw [ih hv.2, Function.update_of_ne hv.1]

/-- What stood at the listed entries before does not matter. -/
theorem setAll_congr {Q : Pages} {l : List (Nat × Option (Nat × MappingFlags))}
    (h : ∀ v, v ∉ l.map Prod.fst → P v = Q v) : setAll P l = setAll Q l := by
  induction l generalizing P Q with
  | nil => exact funext fun v => h v List.not_mem_nil
  | cons x l ih =>
    refine ih (P := Function.update P x.1 x.2) (Q := Function.update Q x.1 x.2) fun v hv => ?_
    by_cases hx : v = x.1
    · rw [hx, Function.update_self, Function.update_self]
    · rw [Function.update_of_ne hx, Function.update_of_ne hx]
      exact h v (by rw [List.map_cons, List.mem_cons, not_or]; exact ⟨hx, hv⟩)

/-- The entries that unmapping the addresses replaces. -/
def cleared (vas : List Nat) : List (Nat × Option (Nat × MappingFlags)) := vas.map fun va => (va / pageSize, none)

theorem cleared_fst (vas : List Nat) : (cleared vas).map Prod.fst = vas.map (· / pageSize) := by
  rw [cleared, List.map_map]
  rfl

theorem setAll_cleared : ∀ (vas : List Nat) {P : Pages} {v : Nat}, P v = none ∨ v ∈ vas.map (· / pageSize) →
    setAll P (cleared vas) v = none
  | [], P, v, h => by
    rcases h with h | h
    · exact h
    · cases h
  | va :: vas, P, v, h => by
    refine setAll_cleared vas (P := Function.update P (va / pageSize) none) ?_
    by_cases hv : v = va / pageSize
    · exact Or.inl (by rw [hv, Function.update_self])
    · rw [Function.update_of_ne hv]
      rw [List.map_cons, List.mem_cons] at h
      exact h.imp_right fun h => h.resolve_left hv

/-- The entries that mapping the addresses replaces. -/
def filled (flags : MappingFlags) (l : List (Nat × Nat)) : List (Nat × Option (Nat × MappingFlags)) :=
  l.map fun (va, phys) => (va / pageSize, some (phys, flags))

theorem filled_fst (flags : MappingFlags) (l : List (Nat × Nat)) :
    (filled flags l).map Prod.fst = l.map fun x => x.1 / pageSize := by
  rw [filled, List.map_map]
  rfl

/-- Unmapping pages first makes no difference where they are all mapped again. -/
theorem setAll_cleared_filled {vas : List Nat} {flags : MappingFlags} {l : List (Nat × Nat)}
    (h : ∀ va ∈ vas, va / pageSize ∈ l.map fun x => x.1 / pageSize) :
    setAll (setAll P (cleared vas)) (filled flags l) = setAll P (filled flags l) := by
  refine setAll_congr fun v hv => setAll_of_notMem ?_
  rw [filled_fst] at hv
  rw [cleared_fst]
  intro hm
  obtain ⟨va, hva, rfl⟩ := List.mem_map.1 hm
  exact hv (h va hva)

/-- A page translated by the entries `E` of the root. -/
def UserPage (F : PteFormat) (E : Nat → Prop) (va : Nat) : Prop := va % pageSize = 0 ∧ Own F E (va / pageSize)

theorem unmapAll_tree (hF : F.Lawful) : ∀ (vas : List Nat) {s s' : Memory} {P : Pages} {tables : List Nat}
    {r : Except MapError Unit}, Tree F s root P tables → Pool bound s.frames (tables ++ rest) other →
    (∀ va ∈ vas, UserPage F lowerHalf va ∧ P (va / pageSize) ≠ none) → (vas.map (· / pageSize)).Nodup →
    unmapAll F root vas s = some (r, s') →
    r = .ok () ∧ ∃ tables', Tree F s' root (setAll P (cleared vas)) tables' ∧
      Pool bound s'.frames (tables' ++ rest) other ∧ Keeps rest s s'
  | [], s, s', P, tables, r, h, hpool, _, _, he => by
    cases he
    exact ⟨rfl, tables, h, hpool, Keeps.refl _ _⟩
  | va :: vas, s, s', P, tables, r, h, hpool, hvas, hnd, he => by
    obtain ⟨⟨halign, hlow⟩, hne⟩ := hvas va (List.mem_cons_self ..)
    obtain ⟨⟨phys, flags⟩, hP⟩ := Option.ne_none_iff_exists'.1 hne
    simp only [unmapAll, Option.bind_eq_bind, Option.bind_eq_some_iff] at he
    obtain ⟨⟨r₁, s₁⟩, he₁, he⟩ := he
    obtain ⟨rfl, tables₁, h₁, hpool₁, hk₁⟩ := unmap_tree hF h hpool halign hlow hP he₁
    rw [List.map_cons, List.nodup_cons] at hnd
    have hvas₁ : ∀ w ∈ vas, UserPage F lowerHalf w ∧ Function.update P (va / pageSize) none (w / pageSize) ≠ none := by
      intro w hw
      have hww := hvas w (List.mem_cons_of_mem _ hw)
      refine ⟨hww.1, ?_⟩
      rw [Function.update_of_ne]
      · exact hww.2
      · intro heq
        exact hnd.1 (heq ▸ List.mem_map_of_mem hw)
    obtain ⟨hr, tables₂, h₂, hpool₂, hk₂⟩ := unmapAll_tree hF vas h₁ hpool₁ hvas₁ hnd.2 he
    exact ⟨hr, tables₂, h₂, hpool₂, hk₁.trans hk₂⟩

theorem mapAll_tree (hF : F.Lawful) (hb : bound ≤ 2 ^ 36) {flags : MappingFlags} (henc : F.encodes flags) {zero : Bool}
    {old : List (Nat × VmPage)} {keep : List Nat} (hkeep : ∀ f ∈ keep, f ∈ rest) :
    ∀ (l : List (Nat × Nat)) {mapped : List Nat} {s s' : Memory} {P : Pages} {tables : List Nat}
    {r : Except MapError Unit}, Tree F s root P tables → Pool bound s.frames (tables ++ rest) other →
    (∀ x ∈ l, UserPage F lowerHalf x.1 ∧ P (x.1 / pageSize) = none ∧ x.2 ∈ rest ∧ (zero → x.2 ∉ keep)) →
    (l.map fun x => x.1 / pageSize).Nodup → mapAll F root flags zero old mapped l s = some (r, s') →
    r ≠ .error .outOfMemory →
    r = .ok () ∧ ∃ tables', Tree F s' root (setAll P (filled flags l)) tables' ∧
      Pool bound s'.frames (tables' ++ rest) other ∧ Keeps keep s s'
  | [], _, s, s', P, tables, r, h, hpool, _, _, he, _ => by
    cases he
    exact ⟨rfl, tables, h, hpool, Keeps.refl _ _⟩
  | (va, phys) :: l, mapped, s, s', P, tables, r, h, hpool, hl, hnd, he, hr => by
    obtain ⟨⟨halign, hlow⟩, hP, hrest, hz⟩ := hl _ (List.mem_cons_self ..)
    have hphys := FrameOk.of_placed hb (hpool.placed (List.mem_append_right tables hrest))
    simp only [mapAll, Option.bind_eq_bind, Option.bind_eq_some_iff] at he
    obtain ⟨⟨r₁, s₁⟩, he₁, he⟩ := he
    have hr₁ : r₁ ≠ .error .outOfMemory := by
      rintro rfl
      simp only [Option.bind_eq_some_iff] at he
      obtain ⟨_, _, he⟩ := he
      cases he
      exact hr rfl
    obtain ⟨rfl, tables₁, h₁, hpool₁, hk₁⟩ := map_tree hF hb h hpool halign hlow hphys henc hP he₁ hr₁
    have hnot : phys ∉ tables₁ := fun hm => (List.disjoint_of_nodup_append hpool₁.nodup) hm hrest
    -- zeroing the new page changes neither the tables nor the frames to keep
    let s₂ := if zero then s₁.zeroPage phys else s₁
    have hzero : ∀ {frames : List Nat}, (zero → phys ∉ frames) → Keeps frames s₁ s₂ := by
      intro frames hp
      cases zero with
      | false => exact Keeps.refl _ _
      | true => exact Keeps.of_update (hp rfl) rfl rfl
    have hfr : s₂.frames = s₁.frames := by cases zero <;> rfl
    rw [List.map_cons, List.nodup_cons] at hnd
    have hl₁ : ∀ x ∈ l, UserPage F lowerHalf x.1 ∧
        Function.update P (va / pageSize) (some (phys, flags)) (x.1 / pageSize) = none ∧ x.2 ∈ rest ∧
        (zero → x.2 ∉ keep) := by
      intro x hx
      obtain ⟨hu, hPx, hrx⟩ := hl x (List.mem_cons_of_mem _ hx)
      refine ⟨hu, ?_, hrx⟩
      rw [Function.update_of_ne]
      · exact hPx
      · intro heq
        exact hnd.1 (heq ▸ List.mem_map_of_mem (f := fun x => x.1 / pageSize) hx)
    obtain ⟨hr₂, tables₂, h₂, hpool₂, hk₂⟩ := mapAll_tree hF hb henc hkeep l
      (h₁.keeps (hzero fun _ => hnot)) (by rw [hfr]; exact hpool₁) hl₁ hnd.2 he hr
    exact ⟨hr₂, tables₂, h₂, hpool₂, ((hk₁.mono hkeep).trans (hzero hz)).trans hk₂⟩

theorem freeAll_pool : ∀ (l : List Nat) {s : Memory} {frames : List Nat}, Pool bound s.frames (l ++ frames) other →
    ∃ s', freeAll l s = some s' ∧ Pool bound s'.frames frames other ∧ s'.mem = s.mem ∧ s'.metadata = s.metadata
  | [], s, _, h => ⟨s, rfl, h, rfl, rfl⟩
  | p :: l, s, frames, h => by
    obtain ⟨a, he, hpool, -⟩ := freeFrame_pool h
    obtain ⟨s', he', hpool', hm, hd⟩ := freeAll_pool l (s := { s with frames := a }) hpool
    exact ⟨s', by simp [freeAll, he, he'], hpool', hm, hd⟩

theorem allocFresh_pool : ∀ (n : Nat) {fresh fresh' : List Nat} {s s' : Memory} {frames : List Nat},
    Pool bound s.frames (fresh ++ frames) other → allocFresh n fresh s = some (some fresh', s') →
    fresh'.length = fresh.length + n ∧ Pool bound s'.frames (fresh' ++ frames) other ∧ s'.mem = s.mem ∧
      s'.metadata = s.metadata
  | 0, fresh, fresh', s, s', frames, h, he => by
    cases he
    exact ⟨rfl, h, rfl, rfl⟩
  | n + 1, fresh, fresh', s, s', frames, h, he => by
    simp only [allocFresh, Option.bind_eq_bind, Option.bind_eq_some_iff] at he
    obtain ⟨⟨p, a⟩, hal, he⟩ := he
    rcases allocFrame_cases h hal with ⟨p', rfl, hpool, -⟩ | ⟨rfl, rfl, -⟩
    · have hpool' : Pool bound a ((fresh ++ [p']) ++ frames) other := by
        refine hpool.perm ?_
        rw [List.append_assoc]
        exact List.perm_middle.symm
      obtain ⟨hlen, hpool'', hm, hd⟩ := allocFresh_pool n (s := { s with frames := a }) hpool' he
      refine ⟨?_, hpool'', hm, hd⟩
      rw [hlen, List.length_append, List.length_singleton]
      omega
    · simp only [Option.bind_eq_some_iff] at he
      obtain ⟨_, _, he⟩ := he
      cases he

end

end Koros.Mm
