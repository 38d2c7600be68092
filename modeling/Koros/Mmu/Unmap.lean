import Koros.Mmu.Walk
import Koros.Mmu.Refine

/-!
# Unmapping, after any requests

The requests that an address space serves are `map`, `unmap` and `mark`, with both sizes. They keep the tables of the
system in order (`serve_live`), provided that `map` is asked for mappings that the format encodes as leaves.

- `view_mod`: only the translated bits of an address matter;
- `unmap_cleared`: what an accepted `unmap` of the lower half does to every address;
- `unmapped_iff`: in every state that requests lead to, an accepted `unmap` of the lower half takes away its range and
  nothing else exactly when no larger leaf holds the address;
- `unmap_misses`: a larger leaf, a page of the upper half and a page without access.
-/
set_option autoImplicit false

namespace Koros.Mmu

open Koros.Frame

/-! ## The architectures -/

def architectures : List PteFormat := [riscv64, x86_64, aarch64]

section Architectures

variable {F : PteFormat}

theorem lawful_of_mem (h : F ∈ architectures) : F.Lawful := by
  simp only [architectures, List.mem_cons, List.not_mem_nil, or_false] at h
  rcases h with rfl | rfl | rfl
  exacts [riscv64_lawful, x86_64_lawful, aarch64_lawful]

theorem splits_of_mem (h : F ∈ architectures) : F.Splits := by
  simp only [architectures, List.mem_cons, List.not_mem_nil, or_false] at h
  rcases h with rfl | rfl | rfl
  exacts [riscv64_splits, x86_64_splits, aarch64_splits]

/-- The translated addresses fit a whole number of times into 64 bits. -/
theorem exists_span_of_mem (h : F ∈ architectures) : ∃ m, 2 ^ 64 = span (F.top + 1) * m := by
  simp only [architectures, List.mem_cons, List.not_mem_nil, or_false] at h
  rcases h with rfl | rfl | rfl
  exacts [⟨2 ^ 25, by decide⟩, ⟨2 ^ 16, by decide⟩, ⟨2 ^ 16, by decide⟩]

end Architectures

/-- The canonical addresses: the lower half, and the upper half at the end of the 64-bit space. -/
def Canonical (F : PteFormat) (a : Nat) : Prop :=
  a < 256 * span F.top ∨ 2 ^ 64 - 256 * span F.top ≤ a ∧ a < 2 ^ 64

theorem span_top_succ (F : PteFormat) : span (F.top + 1) = 512 * span F.top := by
  rw [span_eq, span_eq, Nat.pow_succ]
  ring

/-- An address of the upper half is translated as an upper address. -/
theorem Canonical.mod_eq {F : PteFormat} {a : Nat} (hF : F ∈ architectures) (h : Canonical F a) :
    (a < 256 * span F.top ∧ a % span (F.top + 1) = a) ∨ 256 * span F.top ≤ a % span (F.top + 1) := by
  have hsucc := span_top_succ F
  have hpos := span_pos F.top
  rcases h with h | ⟨h₁, h₂⟩
  · exact Or.inl ⟨h, Nat.mod_eq_of_lt (by omega)⟩
  · right
    obtain ⟨m, hm⟩ := exists_span_of_mem hF
    have hm1 : 1 ≤ m := Nat.pos_of_ne_zero fun h0 => by simp [h0] at hm
    obtain ⟨k, rfl⟩ : ∃ k, m = k + 1 := ⟨m - 1, by omega⟩
    rw [hm, Nat.mul_succ] at h₁ h₂
    obtain ⟨b, rfl⟩ : ∃ b, a = span (F.top + 1) * k + b := ⟨a - span (F.top + 1) * k, by omega⟩
    rw [Nat.mul_add_mod, Nat.mod_eq_of_lt (by omega)]
    omega

theorem tableIndex_mod (F : PteFormat) (a : Nat) {l : Nat} (hl : l ≤ F.top) :
    tableIndex (a % span (F.top + 1)) l = tableIndex a l := by
  obtain ⟨m, hm⟩ := span_mul_div (show l + 1 ≤ F.top + 1 by omega)
  have hsucc : span (l + 1) = span l * 512 := by rw [span_eq, span_eq, Nat.pow_succ]; ring
  rw [tableIndex_eq_span, tableIndex_eq_span, hm, hsucc, Nat.mul_assoc, Nat.mod_mul_right_div_self,
    Nat.mod_mul_right_mod]

theorem walk_mod (F : PteFormat) (s : Memory) (a : Nat) : ∀ (level page : Nat), level ≤ F.top →
    walk F s (a % span (F.top + 1)) level page = walk F s a level page
  | 0, _, _ => rfl
  | level + 1, page, hl => by
    simp only [walk, tableIndex_mod F a hl]
    split
    · exact walk_mod F s a level _ (by omega)
    · rfl

/-- Only the translated bits of an address matter. -/
theorem view_mod (F : PteFormat) (s : Memory) (root a : Nat) :
    view F s root (a % span (F.top + 1)) = view F s root a := by
  have hle : (walk F s a F.top root).1 ≤ F.top := walk_level_le _ _
  have hoff : a % span (F.top + 1) % span (walk F s a F.top root).1 = a % span (walk F s a F.top root).1 := by
    obtain ⟨m, hm⟩ := span_mul_div (show (walk F s a F.top root).1 ≤ F.top + 1 by omega)
    rw [hm, Nat.mod_mul_right_mod]
  rw [view, view, viewAt, viewAt, wordAt, wordAt, walk_mod F s a F.top root (Nat.le_refl _), seen, seen,
    tableIndex_mod F a hle, hoff]

/-! ## Requests -/

inductive Request where
  | map (va phys : Nat) (flags : MappingFlags) (size : MapSize)
  | unmap (va : Nat) (size : MapSize)
  | mark (start stop : Nat) (flags : MappingFlags)
deriving DecidableEq, Repr

/-- The format encodes what is to be mapped as a leaf. -/
def Request.Encodable (F : PteFormat) : Request → Prop
  | .map _ phys flags size => F.entryIsLeaf (F.leafEntry phys flags size.level) size.level = true
  | _ => True

instance (F : PteFormat) : DecidablePred (Request.Encodable F)
  | .map _ phys flags size => inferInstanceAs (Decidable (F.entryIsLeaf (F.leafEntry phys flags size.level) size.level = true))
  | .unmap _ _ => .isTrue trivial
  | .mark _ _ _ => .isTrue trivial

namespace AddrSpace

/-- `RCursor::mark`, in a transaction on its range. -/
def mark (F : PteFormat) (s : Memory) (root start stop : Nat) (flags : MappingFlags) : Option Memory := do
  lock F s root start stop
  s.cursorMark F root start stop flags

/-- The state after a request, whether it succeeds or not. -/
def serve (F : PteFormat) (root : Nat) (s : Memory) : Request → Option Memory
  | .map va phys flags size => (map F s root va phys flags size).map Prod.snd
  | .unmap va size => (unmap F s root va size).map Prod.snd
  | .mark start stop flags => mark F s root start stop flags

end AddrSpace

/-- The tables of the system, with the root of an address space of its own. -/
structure Live (F : PteFormat) (bound : Nat) (other : List Extent) (kernel : Nat → Prop) (data : List Nat) (root : Nat)
    (s : Memory) (K : Nat → Option Kind) (tables : List Nat) : Prop where
  census : Census F bound other kernel data s K tables
  root_own : K root = some ⟨F.top, 512⟩
  placed : ∀ f, K f ≠ none → f ≠ root → TableOk f

section Requests

variable {F : PteFormat} {bound : Nat} {other : List Extent} {kernel : Nat → Prop} {data tables : List Nat} {root : Nat}
  {s s' : Memory} {K : Nat → Option Kind}

theorem Live.all_placed (h : Live F bound other kernel data root s K tables) (hroot : TableOk root) :
    ∀ f, K f ≠ none → TableOk f := fun f hf =>
  if hr : f = root then hr ▸ hroot else h.placed f hf hr

/-- A fresh root in a system of tables. -/
theorem new_live (hF : F.Lawful) (h : Census F bound other kernel data s K tables)
    (hplaced : ∀ f, K f ≠ none → TableOk f) (hnew : AddrSpace.new s = some (.ok root, s')) :
    Live F bound other kernel data root s' (Function.update K root (some ⟨F.top, 512⟩)) (root :: tables) := by
  simp only [AddrSpace.new, Option.bind_eq_bind, Option.bind_eq_some_iff] at hnew
  obtain ⟨⟨q, a⟩, hal, hnew⟩ := hnew
  cases q with
  | none => cases hnew
  | some child =>
    cases hnew
    obtain ⟨hK, hal4, hnk, -, hpool, hout⟩ := h.alloc hal
    have hzero : ∀ j, (({ s with frames := a } : Memory).zeroPage root).mem root j = 0 := fun j => by
      rw [mem_zeroPage, if_pos rfl]
    refine ⟨⟨?_, hpool, fun f => ?_, hout, fun f hf => ?_⟩, Function.update_self .., fun f hf hne => ?_⟩
    · refine h.typed.root hF.top_pos hK hal4 (fun j _ _ => ?_) (fun {j c} hj hp => ?_) (fun f hf => ?_) rfl
      · rw [hzero]
        exact hF.present_zero
      · exact absurd hp.lt (Nat.not_lt.2 hj)
      · exact Function.update_of_ne hf ..
    · rw [List.mem_cons]
      by_cases hfr : f = root
      · subst hfr
        rw [Function.update_self]
        exact ⟨fun _ => ⟨Option.some_ne_none _, hnk⟩, fun _ => Or.inl rfl⟩
      · rw [Function.update_of_ne hfr, ← h.mem_iff f]
        exact ⟨fun hf => hf.resolve_left hfr, Or.inr⟩
    · obtain ⟨l, hk⟩ := h.shared f hf
      refine ⟨l, ?_⟩
      rw [Function.update_of_ne]
      · exact hk
      · rintro rfl
        exact hnk hf
    · rw [Function.update_of_ne hne] at hf
      exact hplaced f hf

/-- A `map` call refuses what is not aligned and walks the tables otherwise. -/
theorem map_cases {va phys : Nat} {flags : MappingFlags} {size : MapSize} {r : Except MapError Unit}
    (he : AddrSpace.map F s root va phys flags size = some (r, s')) :
    TableOk root ∧ ((r = .error .unsupported ∧ s' = s) ∨
      va % span size.level = 0 ∧ phys % span size.level = 0 ∧
        Memory.mapAt F va phys flags size.level F.top root s = some (r, s')) := by
  simp only [AddrSpace.map, Option.bind_eq_bind, Option.bind_eq_some_iff] at he
  obtain ⟨_, hlock, he⟩ := he
  refine ⟨tableOk_of_lock (by rw [hlock]; simp), ?_⟩
  simp only [Memory.cursorMap] at he
  split at he
  · cases he
    exact Or.inl ⟨rfl, rfl⟩
  · rename_i hal
    rw [not_or, not_not, not_not] at hal
    exact Or.inr ⟨hal.1, hal.2, he⟩

/-- An accepted `unmap` is a walk over its range. -/
theorem unmap_cases {va : Nat} {size : MapSize} {r : Except MapError Nat}
    (he : AddrSpace.unmap F s root va size = some (r, s')) :
    TableOk root ∧ ((r = .error .blockedByExistingMapping ∧ s' = s) ∨
      ∃ paddr u, r = .ok paddr ∧ AddrSpace.translate F s root va = some (some paddr) ∧
        Memory.unmapIn F F.top root 0 va (va + size.bytes) (s, 0) = some (s', u)) := by
  simp only [AddrSpace.unmap, Option.bind_eq_bind, Option.bind_eq_some_iff] at he
  obtain ⟨t, ht, he⟩ := he
  have hroot : TableOk root := by
    have hlock : AddrSpace.lock F s root va (va + pageSize) ≠ none := fun hnone => by
      simp [AddrSpace.translate, hnone] at ht
    exact tableOk_of_lock hlock
  refine ⟨hroot, ?_⟩
  cases t with
  | none =>
    cases he
    exact Or.inl ⟨rfl, rfl⟩
  | some paddr =>
    simp only [Option.bind_eq_some_iff] at he
    obtain ⟨_, -, ⟨q, s₁⟩, hcur, he⟩ := he
    have hlt : ¬ va ≥ va + size.bytes := by
      cases size <;> simp [MapSize.bytes, pageSize]
    rw [Memory.cursorUnmap, if_neg hlt] at hcur
    simp only [Option.bind_eq_bind, Option.bind_eq_some_iff] at hcur
    obtain ⟨⟨s₂, u⟩, hin, hcur⟩ := hcur
    cases hcur
    cases he
    exact Or.inr ⟨paddr, u, rfl, ht, hin⟩

/-- A `mark` call only marks. -/
theorem mark_marks (h : Live F bound other kernel data root s K tables) {start stop : Nat} {flags : MappingFlags}
    (he : AddrSpace.mark F s root start stop flags = some s') :
    Marks F bound other kernel data tables K root start stop s s' := by
  simp only [AddrSpace.mark, Option.bind_eq_bind, Option.bind_eq_some_iff] at he
  obtain ⟨_, -, he⟩ := he
  unfold Memory.cursorMark at he
  split at he
  · cases he
  · have hbase : 0 = 0 * span (F.top + 1) := (Nat.zero_mul _).symm
    rw [show F.levels - 1 = F.top from rfl, hbase] at he
    exact markIn_marks F.top h.census h.root_own (Nat.zero_add _) (fun va _ => rfl) (Nat.le_refl start)
      (Nat.le_refl stop) he

/-- **Every request keeps the tables in order.** -/
theorem serve_live (hF : F.Lawful) (hS : F.Splits) (h : Live F bound other kernel data root s K tables) {r : Request}
    (hr : r.Encodable F) (he : AddrSpace.serve F root s r = some s') :
    ∃ K' tables', Live F bound other kernel data root s' K' tables' := by
  cases r with
  | map va phys flags size =>
    obtain ⟨⟨q, s₁⟩, hmap, rfl⟩ := Option.map_eq_some_iff.1 he
    rcases (map_cases hmap).2 with ⟨-, rfl⟩ | ⟨-, -, hat⟩
    · exact ⟨K, tables, h⟩
    · obtain ⟨K', tables', hc, hplaced, hadds⟩ := mapAt_census hF hS hr F.top h.census h.root_own h.root_own
        (Nat.zero_add _) rfl hat
      refine ⟨K', tables', hc, hadds.keep h.root_own, fun f hf hne => ?_⟩
      by_cases hK : K f = none
      · exact hplaced f hf hK
      · exact h.placed f hK hne
  | unmap va size =>
    obtain ⟨⟨q, s₁⟩, hun, rfl⟩ := Option.map_eq_some_iff.1 he
    rcases (unmap_cases hun).2 with ⟨-, rfl⟩ | ⟨paddr, u, -, -, hin⟩
    · exact ⟨K, tables, h⟩
    · obtain ⟨K', tables', hc, hsh⟩ := unmapIn_sheds hF F.top h.census h.root_own (tableIndex_lt _ _) hin
      refine ⟨K', tables', hc, hsh.keep h.root_own (Nat.le_refl _), fun f hf hne => ?_⟩
      obtain ⟨k, hk⟩ := Option.ne_none_iff_exists'.1 hf
      exact h.placed f (by rw [hsh.sub hk]; simp) hne
  | mark start stop flags =>
    exact ⟨K, tables, (mark_marks h he).census, h.root_own, h.placed⟩

theorem run_live (hF : F.Lawful) (hS : F.Splits) : ∀ (rs : List Request) {s s' : Memory} {K : Nat → Option Kind}
    {tables : List Nat}, Live F bound other kernel data root s K tables → (∀ r ∈ rs, r.Encodable F) →
    rs.foldlM (AddrSpace.serve F root) s = some s' → ∃ K' tables', Live F bound other kernel data root s' K' tables'
  | [], s, s', K, tables, h, _, he => by
    cases he
    exact ⟨K, tables, h⟩
  | r :: rs, s, s', K, tables, h, hrs, he => by
    rw [List.foldlM_cons] at he
    obtain ⟨s₁, he₁, he⟩ := Option.bind_eq_some_iff.1 he
    obtain ⟨K₁, tables₁, h₁⟩ := serve_live hF hS h (hrs r List.mem_cons_self) he₁
    exact run_live hF hS rs h₁ (fun q hq => hrs q (List.mem_cons_of_mem _ hq)) he

/-! ## An accepted unmapping -/

theorem MapSize.bytes_eq (size : MapSize) : size.bytes = span size.level := by
  cases size <;> rfl

/-- Where the walk of an address comes at least as deep as `k`, so do the walks of its region. -/
theorem tableAt_of_walk_le {va k : Nat} (hk : k ≤ F.top) (hw : (walk F s va F.top root).1 ≤ k) :
    ∃ p, tableAt F s root va (F.top - k) = some p := by
  have hstep : ∀ (level : Nat) {page : Nat}, level ≤ F.top → k ≤ level →
      tableAt F s root va (F.top - level) = some page → (walk F s va level page).1 ≤ k →
      ∃ p, tableAt F s root va (F.top - k) = some p := by
    intro level
    induction level with
    | zero =>
      intro page _ hk₀ hp _
      obtain rfl : k = 0 := by omega
      exact ⟨page, hp⟩
    | succ level ih =>
      intro page hle hkl hp hw
      by_cases hkl' : k = level + 1
      · subst hkl'
        exact ⟨page, hp⟩
      rcases points_or_ends F s va page level with ⟨c, hpt⟩ | hend
      · rw [walk_of_points hpt] at hw
        refine ih (by omega) (by omega) ?_ hw
        have hn : F.top - level = F.top - (level + 1) + 1 := by omega
        rw [hn]
        exact tableAt_points hp (Nat.sub_add_cancel hle) hpt
      · rw [hend] at hw
        exact absurd hw (by show ¬ level + 1 ≤ k; omega)
  refine hstep F.top (Nat.le_refl _) hk ?_ hw
  rw [Nat.sub_self]
  rfl

theorem walk_le_of_same {a va k : Nat} (hk : k ≤ F.top) (hsame : a / span k = va / span k)
    (hw : (walk F s va F.top root).1 ≤ k) : (walk F s a F.top root).1 ≤ k := by
  obtain ⟨p, hp⟩ := tableAt_of_walk_le hk hw
  have hpa : tableAt F s root a (F.top - k) = some p := by
    rw [← hp]
    refine tableAt_same (Nat.sub_le _ _) ?_
    rw [Nat.sub_sub_self hk, div_span_succ, div_span_succ va, hsame]
  rw [walk_of_tableAt (Nat.sub_le _ _) hpa, Nat.sub_sub_self hk]
  exact walk_level_le _ _

/-- What an accepted `unmap` below the end of the translated addresses does. -/
theorem unmap_cleared (hF : F.Lawful) (h : Live F bound other kernel data root s K tables) {va paddr : Nat}
    {size : MapSize} (halign : va % size.bytes = 0) (hlow : va + size.bytes ≤ span (F.top + 1))
    (he : AddrSpace.unmap F s root va size = some (.ok paddr, s')) :
    AddrSpace.translate F s root va = some (some paddr) ∧
    (∀ a, AddrSpace.translate F s root a = some (view F s root a)) ∧
    (∀ a, AddrSpace.translate F s' root a = some (view F s' root a)) ∧
    Cleared F root va (va + size.bytes) (fun _ => True) s s' := by
  obtain ⟨hroot, hcase⟩ := unmap_cases he
  rcases hcase with ⟨hr, -⟩ | ⟨p, u, hr, htr, hin⟩
  · cases hr
  cases hr
  have hpage : pageSize ∣ size.bytes := by cases size <;> decide
  have hva4 : va % pageSize = 0 := Nat.mod_eq_zero_of_dvd (hpage.trans (Nat.dvd_of_mod_eq_zero halign))
  have hend4 : (va + size.bytes) % pageSize = 0 :=
    Nat.mod_eq_zero_of_dvd (Nat.dvd_add (Nat.dvd_of_mod_eq_zero hva4) hpage)
  have hpos : 0 < size.bytes := by cases size <;> decide
  obtain ⟨K', tables', hc', hsh⟩ := unmapIn_sheds hF F.top h.census h.root_own (tableIndex_lt _ _) hin
  have hroot' := hsh.keep h.root_own (Nat.le_refl F.top)
  have hplaced' : ∀ f, K' f ≠ none → TableOk f := fun f hf => by
    obtain ⟨k, hk⟩ := Option.ne_none_iff_exists'.1 hf
    exact h.all_placed hroot f (by rw [hsh.sub hk]; simp)
  refine ⟨htr, translate_eq_view h.census.typed h.root_own (h.all_placed hroot),
    translate_eq_view hc'.typed hroot' hplaced', ?_⟩
  have hbase : 0 = 0 * span (F.top + 1) := (Nat.zero_mul _).symm
  rw [hbase] at hin
  have hspan := span_pos (F.top + 1)
  have hcl : Cleared F root va (va + size.bytes) (fun a => a / span (F.top + 1) = 0) s s' := by
    refine unmapIn_view hF F.top (Nat.le_refl _) h.census h.root_own ?_ ?_ hva4 hend4 ?_ ?_ ?_ hin
    · rw [Nat.zero_mul]
      exact hspan
    · rw [Nat.sub_self]
      rfl
    · rw [Nat.zero_mul]
      exact Nat.zero_le _
    · omega
    · rw [Nat.zero_mul, Nat.zero_add]
      exact hlow
  exact ⟨fun a ha _ => hcl.gone a ha (Nat.div_eq_of_lt ha), fun a ha _ => hcl.kept a ha (Nat.div_eq_of_lt ha),
    fun a _ ht => absurd trivial ht⟩

/-- Nothing in the range is translated any more, and every canonical address outside it is translated as before. -/
def Unmapped (F : PteFormat) (root va len : Nat) (s s' : Memory) : Prop :=
  (∀ a, va ≤ a → a < va + len → AddrSpace.translate F s' root a = some none) ∧
  ∀ a, Canonical F a → ¬ (va ≤ a ∧ a < va + len) → AddrSpace.translate F s' root a = AddrSpace.translate F s root a

/-- **Unmapping**: let an address space be created in a system of page tables and serve any requests whose mappings the
format encodes as leaves. When it then accepts an `unmap` of the lower half, the range is gone and nothing else changed
exactly when the entry that decides the address is of the size asked for or smaller. -/
theorem unmapped_iff (hF : F ∈ architectures) {s₀ s₁ : Memory}
    (h₀ : Census F bound other kernel data s₀ K tables) (hplaced : ∀ f, K f ≠ none → TableOk f)
    (hnew : AddrSpace.new s₀ = some (.ok root, s₁)) (rs : List Request) (hrs : ∀ r ∈ rs, r.Encodable F)
    (hrun : rs.foldlM (AddrSpace.serve F root) s₁ = some s) {va paddr : Nat} {size : MapSize}
    (halign : va % size.bytes = 0) (hlow : va + size.bytes ≤ 256 * span F.top)
    (he : AddrSpace.unmap F s root va size = some (.ok paddr, s')) :
    Unmapped F root va size.bytes s s' ↔ (walk F s va F.top root).1 ≤ size.level := by
  have hL := lawful_of_mem hF
  have hsucc := span_top_succ F
  have hpos := span_pos F.top
  obtain ⟨K₁, tables₁, h⟩ := run_live hL (splits_of_mem hF) rs (new_live hL h₀ hplaced hnew) hrs hrun
  obtain ⟨htr, htrans, htrans', hcl⟩ := unmap_cleared hL h halign (by omega) he
  have hbytes := size.bytes_eq
  have hmine : va / span size.level * span size.level = va := by
    rw [← hbytes]
    exact Nat.div_mul_cancel (Nat.dvd_of_mod_eq_zero halign)
  constructor
  · intro hun
    by_contra hlarge
    have hva : va < span (F.top + 1) := by omega
    have hpart : ¬ Whole va (va + size.bytes) (walk F s va F.top root).1 va := by
      intro hw
      have hlt : span size.level < span (walk F s va F.top root).1 := by
        rw [span_eq, span_eq]
        exact Nat.mul_lt_mul_of_pos_left (Nat.pow_lt_pow_right (by decide) (Nat.lt_of_not_le hlarge)) (by decide)
      have := hw.1
      have := hw.2
      omega
    have hkeep := hcl.kept va hva trivial hpart
    have hgone := hun.1 va (Nat.le_refl _) (by have := span_pos size.level; omega)
    rw [htrans', hkeep, ← htrans, htr] at hgone
    cases hgone
  · intro hle
    have hlevel : size.level ≤ F.top := by
      have := hL.two_le_levels
      have : F.top = F.levels - 1 := rfl
      cases size <;> simp only [MapSize.level] <;> omega
    refine ⟨fun a h₁ h₂ => ?_, fun a hcan hout => ?_⟩
    · have hsame : a / span size.level = va / span size.level := by
        refine Nat.div_eq_of_lt_le (by rw [hmine]; exact h₁) ?_
        rw [Nat.succ_mul, hmine, ← hbytes]
        exact h₂
      have hwhole : Whole va (va + size.bytes) (walk F s a F.top root).1 a := by
        have hin := region_within (walk_le_of_same hlevel hsame hle) (a := a)
        rw [hsame, hmine, ← hbytes] at hin
        exact hin
      rw [htrans', hcl.gone a (by omega) trivial hwhole]
    · rw [htrans, htrans', ← view_mod F s' root a, ← view_mod F s root a]
      congr 1
      have hlt : a % span (F.top + 1) < span (F.top + 1) := Nat.mod_lt _ (span_pos _)
      refine hcl.kept _ hlt trivial fun hw => ?_
      obtain ⟨g₁, g₂⟩ := hw.le
      rcases hcan.mod_eq hF with ⟨-, heq⟩ | hhigh
      · rw [heq] at g₁ g₂
        exact hout ⟨g₁, g₂⟩
      · omega

/-- A system without page tables. -/
theorem fresh_census (hpool : Pool bound s.frames [] other) (hmeta : ∀ d, s.metadata d = none) :
    Census F bound other (fun _ => False) [] s (fun _ => none) [] where
  typed := ⟨nofun, nofun, nofun, nofun, nofun, nofun, fun {d} hd => absurd (hmeta d) hd⟩
  pool := hpool
  mem_iff := fun f => by simp
  outside := nofun
  shared := nofun

end Requests

/-- The frames of `[0x1000, stop)` are free. -/
theorem freshMemory_pool : Pool maxDescriptors (freshMemory 0x9000).frames [] [] :=
  ⟨(Reach.add .new (by decide) (by decide)
    (show FrameAllocator.addRegion .new 0x1000 0x9000 = some (freshMemory 0x9000).frames from rfl)).inv, by decide⟩

/-- Requests and an accepted call after them that were carried out. -/
theorem exists_of_accepted {F : PteFormat} {root : Nat} {s₀ : Memory} {rs : List Request} {α β : Type}
    {call : Memory → Option (Except MapError α × Memory)} {f : Memory → Memory → β} {v : α} {b : β}
    (h : ((rs.foldlM (AddrSpace.serve F root) s₀).bind fun s =>
      (call s).map fun x => (x.1.toOption, f s x.2)) = some (some v, b)) :
    ∃ s s', rs.foldlM (AddrSpace.serve F root) s₀ = some s ∧ call s = some (.ok v, s') ∧ f s s' = b := by
  obtain ⟨s, hs, h⟩ := Option.bind_eq_some_iff.1 h
  obtain ⟨⟨r, s'⟩, hun, h⟩ := Option.map_eq_some_iff.1 h
  cases r with
  | error e => simp [Except.toOption] at h
  | ok p =>
    simp only [Except.toOption, Prod.mk.injEq, Option.some.injEq] at h
    obtain ⟨rfl, rfl⟩ := h
    exact ⟨s, s', hs, hun, rfl⟩

/-- A large page, a small one and a marked range. -/
def largeAndSmall : List Request :=
  [.map 0x200000 0x400000 readWrite .page2M, .map 0x5000 0x7000 readWrite .page4K, .mark 0x6000 0x8000 readWrite]

/-- The large page is unmapped. -/
theorem unmapped_iff_large : ∃ s s', largeAndSmall.foldlM (AddrSpace.serve riscv64 0x1000) (freshSpace 0x9000) = some s ∧
    AddrSpace.unmap riscv64 s 0x1000 0x200000 .page2M = some (.ok 0x400000, s') ∧
    Unmapped riscv64 0x1000 0x200000 (MapSize.bytes .page2M) s s' := by
  have hex : ∃ s s', largeAndSmall.foldlM (AddrSpace.serve riscv64 0x1000) (freshSpace 0x9000) = some s ∧
      AddrSpace.unmap riscv64 s 0x1000 0x200000 .page2M = some (.ok 0x400000, s') ∧
      (walk riscv64 s 0x200000 2 0x1000).1 = 1 := exists_of_accepted (by decide +kernel)
  obtain ⟨s, s', hrun, hun, hwalk⟩ := hex
  exact ⟨s, s', hrun, hun, (unmapped_iff (by simp [architectures]) (fresh_census freshMemory_pool fun _ => rfl)
    (fun f hf => absurd rfl hf) rfl _ (by decide) hrun (by decide) (by decide) hun).2 (Nat.le_of_eq hwalk)⟩

def noAccess : MappingFlags := ⟨false, false, false, false⟩

/-- Accepted unmappings that miss: of a small page in a large leaf, which stays; of a page of the upper half, which takes
its neighbour away; and of a page without access, which stays. -/
theorem unmap_misses :
    (∃ s s', [Request.map 0x200000 0x400000 readWrite .page2M].foldlM (AddrSpace.serve riscv64 0x1000)
        (freshSpace 0x9000) = some s ∧ AddrSpace.unmap riscv64 s 0x1000 0x200000 .page4K = some (.ok 0x400000, s') ∧
      AddrSpace.translate riscv64 s' 0x1000 0x200000 = some (some 0x400000)) ∧
    (∃ s s', [Request.map 0xFFFFFFC000000000 0x4000 readWrite .page4K,
        .map 0xFFFFFFC000001000 0x5000 readWrite .page4K].foldlM (AddrSpace.serve riscv64 0x1000)
        (freshSpace 0x9000) = some s ∧
      AddrSpace.unmap riscv64 s 0x1000 0xFFFFFFC000000000 .page4K = some (.ok 0x4000, s') ∧
      (AddrSpace.translate riscv64 s 0x1000 0xFFFFFFC000001000,
        AddrSpace.translate riscv64 s' 0x1000 0xFFFFFFC000001000) = (some (some 0x5000), some none)) ∧
    ∃ s s', [Request.map 0x3000 0x4000 noAccess .page4K].foldlM (AddrSpace.serve riscv64 0x1000)
        (freshSpace 0x9000) = some s ∧ AddrSpace.unmap riscv64 s 0x1000 0x3000 .page4K = some (.ok 0x4000, s') ∧
      AddrSpace.translate riscv64 s' 0x1000 0x3000 = some (some 0x4000) := by
  refine ⟨exists_of_accepted ?_, exists_of_accepted ?_, exists_of_accepted ?_⟩ <;> decide +kernel

end Koros.Mmu
