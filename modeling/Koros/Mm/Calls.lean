import Koros.Mm.Fence
import Koros.Mm.Process

/-!
# Process calls on a fenced address space

What the calls of `Process` do to an address space that is fenced from the others, and what the hardware finds in it.

- `Spans.translate`: user addresses translate to pages of the map only;
- `mmap_stays`, `munmap_stays`, `mprotect_stays`, `sysBrk_stays`, `store_call_stays`: calls that are safe as they are;
- `exit_stays`, `clone_fences`, `execve_fences`: calls that are safe under a condition.
-/
set_option autoImplicit false

namespace Koros.Mm

open Koros.Frame Koros.Mmu

/-! ## What the hardware finds -/

theorem walk_outline {F : PteFormat} {half root : Nat} {s : Memory} {T : Tables} {W : Nat → Nat} {va : Nat} (hF : F.Lawful)
    (h : Outline F (· < half) root s T W) (hlow : Below F half (va / pageSize)) : ∀ (level : Nat) {page : Nat},
    T level (region (level + 1) (va / pageSize)) = some page → level ≤ F.top →
    walk F s va level page = if F.live (W (va / pageSize)) then some (W (va / pageSize), 0) else none
  | 0, page, hT, _ => by
    rw [walk, h.read_leaf hT]
    cases hp : F.entryPresent (W (va / pageSize)) <;> cases hl : F.entryIsLeaf (W (va / pageSize)) 0 <;>
      simp [PteFormat.live, hp, hl]
  | level + 1, page, hT, hle => by
    rw [walk, h.read_table hlow hT]
    cases hc : T level (region (level + 1) (va / pageSize)) with
    | none => simp [PteFormat.tableWord, hF.present_zero, h.word_eq_zero (Nat.le_of_succ_le hle) hc, hF.live_zero]
    | some child =>
      have hok := h.frameOk hc
      simp only [PteFormat.tableWord, hF.present_table hok, hF.not_leaf_table hok, hF.phys_table hok, Bool.not_true,
        Bool.false_eq_true, if_false]
      exact walk_outline hF h hlow level hc (Nat.le_of_succ_le hle)

/-- A user address that the hardware translates is on a page of the map, on that page's frame. -/
theorem Spans.translate {arch : Arch} {s : Memory} {root : Nat} {R : Nat → Nat → Prop} {tables : List Nat}
    (h : Spans arch.format arch.half s root R tables) {va pa : Nat} {flags : MappingFlags}
    (hva : va < arch.userAddressLimit) (ht : arch.translate s root va = some (pa, flags)) :
    ∃ f, R (va / pageSize) f ∧ pa = f + va % pageSize := by
  obtain ⟨T, W, ho, -, hW⟩ := h
  have hlow := arch.below_of_lt hva
  have hroot : T arch.format.top (region (arch.format.top + 1) (va / pageSize)) = some root := by
    rw [hlow.region_top arch.half_le]
    exact ho.root_eq
  rw [Arch.translate, walk_outline arch.lawful ho hlow _ hroot (Nat.le_refl _)] at ht
  split at ht
  · rename_i hlive
    have hspan : span 0 = pageSize := rfl
    simp only [Option.map_some, Option.some.injEq, Prod.mk.injEq, hspan] at ht
    exact ⟨_, hW _ hlive, ht.1.symm⟩
  · cases ht

/-! ## Marks in the bitmap -/

section Marks

variable {bound f : Nat} {a : FrameAllocator} {frames : List Nat} {other : List Extent}

theorem isUsed_iff : isUsed a f = true ↔ Marked a f := by
  simp only [isUsed, List.any_eq_true, Bool.and_eq_true, decide_eq_true_eq, Marked]
  constructor
  · rintro ⟨r, hr, ⟨h₁, h₂⟩, hu⟩
    exact ⟨r, hr, f / pageSize - r.startPpn, by omega, by omega, hu⟩
  · rintro ⟨r, hr, o, ho, he, hu⟩
    refine ⟨r, hr, ⟨by omega, by omega⟩, ?_⟩
    rwa [← he, Nat.add_sub_cancel_left]

/-- A frame that is nobody's is not marked. -/
theorem isUsed_eq_false (h : Pool bound a frames other) (ha : f % pageSize = 0)
    (ho : ∀ e ∈ other, ¬ e.Covers (f / pageSize)) (hf : f ∉ frames) : isUsed a f = false := by
  rw [← Bool.not_eq_true, isUsed_iff]
  exact h.not_marked ha ho hf

end Marks

/-! ## Loops of the calls -/

section Calls

variable {arch : Arch} {bound : Nat} {other : List Extent} {rest : List Nat} {space space' : AddressSpace} {m m' : Machine}

theorem populate_stays (h : Fenced arch bound other rest m.mem space) (contents : List (Nat × (Nat → Nat))) :
    Stays arch bound other rest space m space (space.populate m contents) := by
  unfold AddressSpace.populate
  induction contents generalizing m with
  | nil => exact Stays.refl h
  | cons x contents ih =>
    rw [List.foldl_cons]
    cases hp : space.pages[x.1]? with
    | none => simpa only [hp] using ih h
    | some page =>
      have h₁ : Stays arch bound other rest space m space
          { m with mem := { m.mem with mem := Function.update m.mem.mem page.phys x.2 } } := store_stays h hp rfl rfl
      simpa only [hp] using h₁.trans (ih h₁.fenced)

theorem mapPages_stays (hb : bound ≤ 2 ^ 36) {start : Nat} {flags : MappingFlags} : ∀ (n : Nat) {mapped : Nat}
    {space space' : AddressSpace} {m m' : Machine} {r : Except MapError Unit}, Fenced arch bound other rest m.mem space →
    AddressSpace.mapPages arch start flags n mapped space m = some (r, space', m') →
    Stays arch bound other rest space m space' m'
  | 0, mapped, space, space', m, m', r, h, he => by
    cases he
    exact Stays.refl h
  | n + 1, mapped, space, space', m, m', r, h, he => by
    simp only [AddressSpace.mapPages, Option.bind_eq_bind, Option.bind_eq_some_iff] at he
    obtain ⟨⟨r₁, space₁, m₁⟩, he₁, he⟩ := he
    obtain ⟨h₁, -⟩ := mapZeroed_stays hb h he₁
    cases r₁ with
    | ok p => exact h₁.trans (mapPages_stays hb n h₁.fenced he)
    | error e =>
      simp only [Option.bind_eq_some_iff] at he
      obtain ⟨⟨r₂, space₂, m₂⟩, he₂, he⟩ := he
      cases he
      exact h₁.trans (unmapRange_stays h₁.fenced he₂)

theorem growPages_stays (hb : bound ≤ 2 ^ 36) {flags : MappingFlags} : ∀ (l : List Nat) {space space' : AddressSpace}
    {m m' : Machine} {r : Except MapError Unit}, Fenced arch bound other rest m.mem space →
    AddressSpace.growPages arch flags l space m = some (r, space', m') → Stays arch bound other rest space m space' m'
  | [], space, space', m, m', r, h, he => by
    cases he
    exact Stays.refl h
  | va :: l, space, space', m, m', r, h, he => by
    unfold AddressSpace.growPages at he
    split at he
    · exact growPages_stays hb l h he
    simp only [Option.bind_eq_bind, Option.bind_eq_some_iff] at he
    obtain ⟨⟨r₁, space₁, m₁⟩, he₁, he⟩ := he
    obtain ⟨h₁, -⟩ := mapZeroed_stays hb h he₁
    cases r₁ with
    | ok p => exact h₁.trans (growPages_stays hb l h₁.fenced he)
    | error e =>
      cases he
      exact h₁

theorem loadProgram_stays (hb : bound ≤ 2 ^ 36) : ∀ (image : List Load) {space space' : AddressSpace} {m m' : Machine}
    {r : Except MapError Unit}, Fenced arch bound other rest m.mem space →
    loadProgram arch image space m = some (r, space', m') → Stays arch bound other rest space m space' m'
  | [], space, space', m, m', r, h, he => by
    cases he
    exact Stays.refl h
  | load :: image, space, space', m, m', r, h, he => by
    unfold loadProgram at he
    split at he
    · have h₁ := populate_stays h [(load.vaddr, load.words)]
      exact h₁.trans (loadProgram_stays hb image h₁.fenced he)
    simp only [Option.bind_eq_bind, Option.bind_eq_some_iff] at he
    obtain ⟨⟨r₁, space₁, m₁⟩, he₁, he⟩ := he
    obtain ⟨h₁, -⟩ := mapZeroed_stays hb h he₁
    cases r₁ with
    | ok p =>
      have h₂ := populate_stays h₁.fenced [(load.vaddr, load.words)]
      exact (h₁.trans h₂).trans (loadProgram_stays hb image h₂.fenced he)
    | error e =>
      cases he
      exact h₁

/-- A word inside a page of the map is overwritten. -/
theorem writeU32_stays (h : Fenced arch bound other rest m.mem space) {va paddr value : Nat}
    (ht : space.translate va = some paddr) (hin : va % pageSize + 4 ≤ pageSize) :
    Stays arch bound other rest space m space { m with mem := writeU32 m.mem paddr value } := by
  obtain ⟨page, hp, rfl⟩ := Option.map_eq_some_iff.1 ht
  have halign : page.phys % pageSize = 0 := by
    obtain ⟨own, hrec, hkey, tables, -, hpool⟩ := h
    have hmem := List.mem_append_left rest (hrec.mem (maps_of_get hkey hp))
    exact (hpool.placed (List.mem_append_right tables hmem)).1
  -- each byte is on the page
  have hbyte : ∀ {m : Machine} (k : Nat), k < 4 → Fenced arch bound other rest m.mem space → ∀ byte,
      Stays arch bound other rest space m space
        { m with mem := setByte m.mem (page.phys + va % pageSize + k) byte } := by
    intro m k hk hm byte
    have hpage : (page.phys + va % pageSize + k) / pageSize * pageSize = page.phys := by
      unfold pageSize at *
      omega
    have hmem : (setByte m.mem (page.phys + va % pageSize + k) byte).mem = Function.update m.mem.mem page.phys
        (Function.update (m.mem.mem page.phys) ((page.phys + va % pageSize + k) % pageSize / 8)
          (putByte (m.mem.mem page.phys ((page.phys + va % pageSize + k) % pageSize / 8))
            ((page.phys + va % pageSize + k) % 8) byte)) := by
      unfold setByte Memory.setEntry
      rw [hpage]
    exact store_stays hm hp hmem rfl
  have hfold : ∀ (l : List Nat), (∀ k ∈ l, k < 4) → ∀ {m : Machine}, Fenced arch bound other rest m.mem space →
      Stays arch bound other rest space m space { m with
        mem := l.foldl (fun s k => setByte s (page.phys + va % pageSize + k) (value / 256 ^ k % 256)) m.mem } := by
    intro l
    induction l with
    | nil =>
      intro _ m hm
      exact Stays.refl hm
    | cons k l ih =>
      intro hl m hm
      have h₁ := hbyte k (hl k (List.mem_cons_self ..)) hm (value / 256 ^ k % 256)
      exact h₁.trans (ih (fun j hj => hl j (List.mem_cons_of_mem _ hj)) h₁.fenced)
  exact hfold (List.range 4) (fun k hk => List.mem_range.1 hk) h

/-! ## The calls -/

variable {p p' : Process} {r : Int}

theorem place_space {address length start : Nat} {fixed : Bool} (h : p.place arch address length fixed = .ok (start, p')) :
    p'.space = p.space := by
  unfold Process.place at h
  split at h
  · split at h
    · cases h
    · cases h
      rfl
  · split at h
    · cases h
    split at h
    · cases h
    split at h
    · cases h
    · cases h
      rfl

theorem mmap_stays (hb : bound ≤ 2 ^ 36) (h : Fenced arch bound other rest m.mem p.space) {address length prot flags : Nat}
    {file : Except Int (List (Nat × (Nat → Nat)))}
    (he : p.mmap arch m address length prot flags file = some (r, p', m')) :
    Stays arch bound other rest p.space m p'.space m' := by
  unfold Process.mmap at he
  dsimp only at he
  split at he
  · cases he
    exact Stays.refl h
  rename_i start p₁ hplace
  rw [← place_space hplace] at h ⊢
  split at he
  · cases he
    exact Stays.refl h
  simp only [Option.bind_eq_bind, Option.bind_eq_some_iff] at he
  obtain ⟨⟨r₁, space₁, m₁⟩, he₁, he⟩ := he
  have h₁ : Stays arch bound other rest p₁.space m space₁ m₁ := by
    unfold Process.mapRange at he₁
    split at he₁
    · exact replaceZeroed_stays hb h he₁
    · exact mapPages_stays hb _ h he₁
  cases r₁ with
  | error e =>
    cases he
    exact h₁
  | ok _ =>
    dsimp only at he
    split at he
    · cases he
      exact h₁
    split at he
    · cases he
      exact h₁.trans (populate_stays h₁.fenced _)
    · simp only [Option.bind_eq_some_iff] at he
      obtain ⟨⟨r₂, space₂, m₂⟩, he₂, he⟩ := he
      cases he
      exact h₁.trans (unmapRange_stays h₁.fenced he₂)

theorem munmap_stays (h : Fenced arch bound other rest m.mem p.space) {addr len : Nat}
    (he : p.munmap arch m addr len = some (r, p', m')) : Stays arch bound other rest p.space m p'.space m' := by
  unfold Process.munmap at he
  split at he
  · cases he
    exact Stays.refl h
  split at he
  · cases he
    exact Stays.refl h
  simp only [Option.bind_eq_bind, Option.bind_eq_some_iff] at he
  obtain ⟨⟨r₁, space₁, m₁⟩, he₁, he⟩ := he
  have h₁ := unmapRange_stays h he₁
  cases r₁ <;> cases he <;> exact h₁

theorem mprotect_stays (hb : bound ≤ 2 ^ 36) (h : Fenced arch bound other rest m.mem p.space) {address length prot : Nat}
    (he : p.mprotect arch m address length prot = some (r, p', m')) :
    Stays arch bound other rest p.space m p'.space m' := by
  unfold Process.mprotect at he
  split at he
  · cases he
    exact Stays.refl h
  split at he
  · cases he
    exact Stays.refl h
  simp only [Option.bind_eq_bind, Option.bind_eq_some_iff] at he
  obtain ⟨⟨r₁, space₁, m₁⟩, he₁, he⟩ := he
  have h₁ := protectRange_stays hb h he₁
  cases r₁ <;> cases he <;> exact h₁

theorem sysBrk_stays (hb : bound ≤ 2 ^ 36) (h : Fenced arch bound other rest m.mem p.space) {addr : Nat}
    (he : p.sysBrk arch m addr = some (r, p', m')) : Stays arch bound other rest p.space m p'.space m' := by
  unfold Process.sysBrk at he
  generalize hq : (if p.brk = 0 then { p with brk := arch.brkBase } else p) = q at he
  have hspace : q.space = p.space := by
    subst hq
    split <;> rfl
  rw [← hspace] at h ⊢
  dsimp only at he
  split at he
  · cases he
    exact Stays.refl h
  split at he
  · cases he
    exact Stays.refl h
  simp only [Option.bind_eq_bind, Option.bind_eq_some_iff] at he
  obtain ⟨⟨r₁, space₁, m₁⟩, he₁, he⟩ := he
  have h₁ := growPages_stays hb _ h he₁
  cases r₁ <;> cases he <;> exact h₁

theorem store_call_stays (h : Fenced arch bound other rest m.mem p.space) (vaddr : Nat) (words : Nat → Nat) :
    Stays arch bound other rest p.space m p.space (p.store arch m vaddr words) := by
  unfold Process.store
  split
  · exact Stays.refl h
  rename_i paddr flags ht
  split
  swap
  · exact Stays.refl h
  rename_i hva
  have h' := h
  obtain ⟨own, hrec, hkey, tables, hspans, hpool⟩ := h'
  obtain ⟨f, hf, rfl⟩ := hspans.translate hva.1 ht
  obtain ⟨page, hp, rfl⟩ := get_of_maps hf
  have halign := (hpool.placed (List.mem_append_right tables (List.mem_append_left rest (hrec.mem hf)))).1
  have hpage : (page.phys + vaddr % pageSize) / pageSize * pageSize = page.phys := by
    unfold pageSize at *
    omega
  rw [hpage]
  exact store_stays h hp rfl rfl

/-- What `exit` clears is a word of the process. -/
def Process.Clears (arch : Arch) (p : Process) (m : Machine) : Prop :=
  p.clearChildTid ≠ 0 → ∀ paddr, AddrSpace.translate arch.format m.mem p.space.root p.clearChildTid = some (some paddr) →
    p.space.translate p.clearChildTid = some paddr ∧ p.clearChildTid % pageSize + 4 ≤ pageSize

theorem exit_stays (h : Fenced arch bound other rest m.mem p.space) (hc : p.Clears arch m)
    (he : p.exit arch m = some (p', m')) : Stays arch bound other rest p.space m p'.space m' := by
  unfold Process.exit at he
  split at he
  swap
  · cases he
    exact Stays.refl h
  rename_i htid
  simp only [Option.bind_eq_bind, Option.bind_eq_some_iff] at he
  obtain ⟨t, ht, he⟩ := he
  cases t with
  | none =>
    cases he
    exact Stays.refl h
  | some paddr =>
    cases he
    obtain ⟨htr, hin⟩ := hc htid paddr ht
    exact writeU32_stays h htr hin

/-- A new program image replaces the old one, or the call leaves some frames behind. -/
theorem execve_fences (hb : bound ≤ 2 ^ 36) {frames : List Nat} (h : Fences arch m.mem p.space frames)
    (hpool : Pool bound m.mem.frames (frames ++ rest) other) (hup : UpperEmpty arch m) {image : List Load} {updated : Bool}
    (he : p.execve arch m image updated = some (r, p', m')) :
    (r ≠ 0 ∧ p' = p ∧ ∃ left, Pool bound m'.mem.frames (left ++ (frames ++ rest)) other ∧
        Same (frames ++ rest) m.mem m'.mem) ∨
      r = 0 ∧ ∃ new left, Fences arch m'.mem p'.space new ∧ Pool bound m'.mem.frames (left ++ (new ++ rest)) other ∧
        Same rest m.mem m'.mem ∧ ∀ f ∈ frames, f ∈ left ∨ isUsed m'.mem.frames f = false := by
  simp only [Process.execve, Option.bind_eq_bind, Option.bind_eq_some_iff] at he
  obtain ⟨⟨r₁, m₁⟩, he₁, he⟩ := he
  obtain ⟨hs₁, -, ⟨root, rfl, h₁⟩ | ⟨⟨e, rfl⟩, hpool₁⟩⟩ := empty_fenced hb hpool hup he₁
  swap
  · cases he
    exact Or.inl ⟨by decide, rfl, [], hpool₁, hs₁⟩
  simp only [Option.bind_eq_some_iff] at he
  obtain ⟨⟨r₂, space₂, m₂⟩, he₂, he⟩ := he
  have h₂ := loadProgram_stays hb image h₁ he₂
  have hs₂ := hs₁.trans h₂.same
  obtain ⟨new, hnew, hpool₂⟩ := h₂.fenced.exists_frames
  -- the new space is dropped on every error path
  have hfail : ∀ {m₃ : Machine}, space₂.drop arch m₂ = some m₃ →
      ∃ left, Pool bound m₃.mem.frames (left ++ (frames ++ rest)) other ∧ Same (frames ++ rest) m.mem m₃.mem := by
    intro m₃ hdrop
    obtain ⟨left, hpool₃, -, hmem, -⟩ := drop_fences hnew hpool₂ hdrop
    exact ⟨left, hpool₃, hs₂.trans fun f _ => congrFun hmem f⟩
  cases r₂ with
  | error e =>
    simp only [Option.bind_eq_some_iff] at he
    obtain ⟨m₃, hdrop, he⟩ := he
    cases he
    exact Or.inl ⟨by decide, rfl, hfail hdrop⟩
  | ok _ =>
    dsimp only at he
    split at he
    swap
    · simp only [Option.bind_eq_some_iff] at he
      obtain ⟨m₃, hdrop, he⟩ := he
      cases he
      exact Or.inl ⟨by decide, rfl, hfail hdrop⟩
    simp only [Option.bind_eq_some_iff] at he
    obtain ⟨m₃, hdrop, he⟩ := he
    cases he
    have hold : Fences arch { m₂ with active := space₂.root }.mem p.space frames :=
      h.same (hs₂.mono fun f hf => List.mem_append_left _ hf)
    have hperm : (new ++ (frames ++ rest)).Perm (frames ++ (new ++ rest)) := List.perm_append_comm_assoc ..
    obtain ⟨left, hpool₃, -, hmem, -⟩ := drop_fences hold (hpool₂.perm hperm) hdrop
    refine Or.inr ⟨rfl, new, left, hnew.same fun f _ => congrFun hmem f, hpool₃, ?_, fun f hf => ?_⟩
    · exact (hs₂.mono fun f hf => List.mem_append_right _ hf).trans fun f _ => congrFun hmem f
    -- a frame of the old image is left behind or free
    rw [or_iff_not_imp_left]
    intro hl
    have hf' : f ∈ frames ++ rest := List.mem_append_left _ hf
    refine isUsed_eq_false hpool₃ (hpool.placed hf').1 (fun e he => pool_not_covers hpool hf' he) fun hin => ?_
    have hd := List.disjoint_of_nodup_append (hpool₂.perm hperm).nodup hf
    exact hd ((List.mem_append.1 hin).resolve_left hl)

/-- The word that `clone` writes for the child is inside its page. -/
def Process.SetsTid (p : Process) (flags tid : Nat) : Prop :=
  tid ≠ 0 → flags &&& 0x1000000 ≠ 0 → p.space.translate tid ≠ none → tid % pageSize + 4 ≤ pageSize

/-- A child joins the processes, or the call leaves some frames behind. -/
theorem clone_fences (hb : bound ≤ 2 ^ 36) (hpool : Pool bound m.mem.frames rest other) (hup : UpperEmpty arch m)
    {flags tid pid : Nat} (htid : p.SetsTid flags tid) {captured : Bool} {q : Except Int Process}
    (he : p.clone arch m flags tid pid captured = some (q, m')) :
    Same rest m.mem m'.mem ∧
      ((∃ child, q = .ok child ∧ Fenced arch bound other rest m'.mem child.space) ∨
        ∃ e left, q = .error e ∧ Pool bound m'.mem.frames (left ++ rest) other) := by
  simp only [Process.clone, Option.bind_eq_bind, Option.bind_eq_some_iff] at he
  obtain ⟨⟨r₁, m₁⟩, he₁, he⟩ := he
  obtain ⟨hs₁, -, ⟨space, rfl, h₁, hnone⟩ | ⟨e, left, rfl, hpool₁⟩⟩ := fork_fenced hb hpool hup he₁
  swap
  · cases he
    exact ⟨hs₁, Or.inr ⟨_, left, rfl, hpool₁⟩⟩
  dsimp only at he
  split at he
  swap
  · simp only [Option.bind_eq_some_iff] at he
    obtain ⟨m₂, hdrop, he⟩ := he
    cases he
    obtain ⟨frames, hf, hpool₁⟩ := h₁.exists_frames
    obtain ⟨left, hpool₂, -, hmem, -⟩ := drop_fences hf hpool₁ hdrop
    exact ⟨hs₁.trans fun f _ => congrFun hmem f, Or.inr ⟨_, left, rfl, hpool₂⟩⟩
  split at he
  · cases he
    exact ⟨hs₁, Or.inl ⟨_, rfl, h₁⟩⟩
  rename_i paddr hp
  cases he
  split at hp
  swap
  · cases hp
  rename_i hset
  have hparent : p.space.translate tid ≠ none := by
    intro hn
    rw [AddressSpace.translate, hnone _ (Option.map_eq_none_iff.1 hn)] at hp
    cases hp
  have hw : Stays arch bound other rest space m₁ space { m₁ with mem := writeU32 m₁.mem paddr pid } :=
    writeU32_stays h₁ hp (htid hset.1 hset.2 hparent)
  exact ⟨hs₁.trans hw.same, Or.inl ⟨_, rfl, hw.fenced⟩⟩

end Calls

end Koros.Mm
