import Koros.Mm.Space

/-!
# Coherence of all address spaces

Runs of calls on any number of address spaces that share the frames of one machine (`World.run`), where every call
succeeds or is refused, none runs out of memory.

- `step_inv`, `run_inv`: each space owns its frames, and no frame belongs to two;
- `addressSpace_coherent`: the hardware's walk finds the pages of the map and no others, the frames of all pages are
  distinct and marked as allocated, and a fork is a copy of its parent;
- `x86_64_grants_execution`: what the walk grants is not always what the map says.
-/
set_option autoImplicit false

namespace Koros.Mm

open Koros.Frame Koros.Mmu

/-! ## What the hardware sees -/

/-- The hardware's walk from a table page on: the leaf entry it ends at, with its level. -/
def walk (F : PteFormat) (s : Memory) (va : Nat) : (level page : Nat) → Option (Nat × Nat)
  | level, page =>
    let entry := s.mem page (tableIndex va level)
    if !F.entryPresent entry then none
    else if F.entryIsLeaf entry level then some (entry, level)
    else
      match level with
      | 0 => none
      | level' + 1 => walk F s va level' (F.entryPhys entry level)

namespace Arch

/-- The permissions that the hardware reads in a leaf entry. On riscv64 they are the bits `R`, `W`, `X` and `U`. -/
def permissions : Arch → (entry : Nat) → MappingFlags
  | riscv64, entry => ⟨entry &&& 2 ≠ 0, entry &&& 4 ≠ 0, entry &&& 8 ≠ 0, entry &&& 16 ≠ 0⟩
  | x86_64, entry => X86.entryFlags entry
  | aarch64, entry => Aarch64.entryFlags entry

/-- The physical address and the permissions that the hardware finds for a virtual address. -/
def translate (arch : Arch) (s : Memory) (root va : Nat) : Option (Nat × MappingFlags) :=
  (walk arch.format s va arch.format.top root).map fun (entry, level) =>
    (arch.format.entryPhys entry level + va % span level, arch.permissions entry)

/-- What a page mapped with `flags` allows: x86_64 has no execute-never bit here and no page that cannot be read, and
aarch64 has no page that cannot be read. -/
def visible : Arch → MappingFlags → MappingFlags
  | riscv64, flags => flags
  | x86_64, flags => { flags with r := true, x := true }
  | aarch64, flags => { flags with r := true }

end Arch

theorem riscv64_permissions {phys : Nat} (hphys : FrameOk phys) (flags : MappingFlags) :
    Arch.riscv64.permissions (riscv64.leafEntry phys flags 0) = flags := by
  obtain ⟨q, -, rfl⟩ := hphys.exists_shift
  have hlow : ∀ m < 2 ^ 10, ((q <<< 10) ||| Riscv64.flagsToHw flags) &&& m = Riscv64.flagsToHw flags &&& m :=
    fun m hm => or_and_low hm
  have he : riscv64.leafEntry (q <<< 12) flags 0 = (q <<< 10) ||| Riscv64.flagsToHw flags :=
    Riscv64.leafPte_shift q flags
  rw [he, Arch.permissions, hlow 2 (by decide), hlow 4 (by decide), hlow 8 (by decide), hlow 16 (by decide)]
  clear hlow he
  obtain ⟨r, w, x, u⟩ := flags
  revert r w x u
  decide

theorem permissions_leaf (arch : Arch) {phys : Nat} (hphys : FrameOk phys) (flags : MappingFlags) :
    arch.permissions (arch.format.leafEntry phys flags 0) = arch.visible flags := by
  cases arch with
  | riscv64 => exact riscv64_permissions hphys flags
  | x86_64 => exact (x86_64_lawful.flags_leaf hphys flags).trans (x86_64_granted flags)
  | aarch64 => exact (aarch64_lawful.flags_leaf hphys flags).trans (aarch64_granted flags)

section Walk

variable {F : PteFormat} {E : Nat → Prop} {root : Nat} {high : Nat → Nat} {s : Memory} {T : Tables} {P : Pages} {va : Nat}

/-- The walk ends at the leaf of a mapped page, or at a missing entry. -/
theorem walk_eq (hF : F.Lawful) (h : Rep F E root high s T P) (hown : Own F E (va / pageSize)) : ∀ (level : Nat) {page : Nat},
    T level (region (level + 1) (va / pageSize)) = some page → level ≤ F.top →
    walk F s va level page = ((P (va / pageSize)).filter fun x => F.encodes x.2).map fun x => (F.leafEntry x.1 x.2 0, 0)
  | 0, page, hT, _ => by
    rw [walk, h.read_leaf hT]
    cases hP : P (va / pageSize) with
    | none => simp [PteFormat.leafWord, hF.present_zero]
    | some x =>
      have hphys := h.pageOk hP
      rw [Option.filter_some]
      cases henc : F.encodes x.2 <;> simp [PteFormat.leafWord, hF.present_leaf hphys, hF.isLeaf_leaf hphys, henc]
  | level + 1, page, hT, hle => by
    rw [walk, h.read_table hown hT]
    cases hc : T level (region (level + 1) (va / pageSize)) with
    | none =>
      have hP : P (va / pageSize) = none := by
        by_contra hne
        exact h.tables_of_page hne (Nat.le_of_succ_le hle) hc
      simp [PteFormat.tableWord, hF.present_zero, hP]
    | some child =>
      have hok := h.frameOk hc
      simp only [PteFormat.tableWord, hF.present_table hok, hF.not_leaf_table hok, hF.phys_table hok, Bool.not_true,
        Bool.false_eq_true, if_false]
      exact walk_eq hF h hown level hc (Nat.le_of_succ_le hle)

/-- The hardware finds the pages whose entries it reads as leaves. -/
theorem translate_eq {arch : Arch} (h : Rep arch.format E root high s T P) (hown : Own arch.format E (va / pageSize)) :
    arch.translate s root va = ((P (va / pageSize)).filter fun x => arch.format.encodes x.2).map fun x =>
      (x.1 + va % pageSize, arch.visible x.2) := by
  have hroot : T arch.format.top (region (arch.format.top + 1) (va / pageSize)) = some root := by
    rw [hown.region_top]
    exact h.root_eq
  have hspan : span 0 = pageSize := rfl
  rw [Arch.translate, walk_eq arch.lawful h hown _ hroot (Nat.le_refl _), Option.map_map]
  refine Option.map_congr fun x hx => ?_
  have hphys := h.pageOk (Option.mem_filter_iff.1 hx).1
  simp only [Function.comp_apply, arch.lawful.phys_leaf hphys, permissions_leaf arch hphys, hspan]

end Walk

/-- The page that holds an address. -/
def pageOf (va : Nat) : Nat := va - va % pageSize

theorem div_mul_pageSize (va : Nat) : va / pageSize * pageSize = pageOf va := by
  unfold pageOf pageSize
  omega

/-- The pages of the map are found by the hardware. -/
theorem Reflects.translate_eq {arch : Arch} {E : Nat → Prop} {s : Memory} {root : Nat} {high : Nat → Nat} {T : Tables} {P : Pages}
    {pages : Std.TreeMap Nat VmPage} (hp : Reflects arch E pages P) (hrep : Rep arch.format E root high s T P) {va : Nat}
    (hown : Own arch.format E (va / pageSize)) :
    arch.translate s root va = (pages[pageOf va]?).map fun page => (page.phys + va % pageSize, arch.visible page.flags) := by
  rw [Mm.translate_eq hrep hown, hp.lookup, div_mul_pageSize]
  cases hpa : pages[pageOf va]? with
  | none => rfl
  | some page => simp [(hp.ok hpa).encodes]

/-- The hardware finds the pages of the map. -/
theorem Owns.translate_eq {arch : Arch} {s : Memory} {space : AddressSpace} {own : List Nat} (h : Owns arch s space own)
    {va : Nat} (hlow : Low arch.format (va / pageSize)) :
    arch.translate s space.root va =
      (space.pages[pageOf va]?).map fun page => (page.phys + va % pageSize, arch.visible page.flags) := by
  obtain ⟨P, tables, users, -, ⟨T, high, hrep, -⟩, -, hp⟩ := h
  exact hp.translate_eq hrep hlow.own

/-! ## The invariant -/

/-- Space `i` owns the frames `own[i]`, and the frames of all spaces are allocated, each once. -/
structure Inv (arch : Arch) (bound : Nat) (other : List Extent) (w : World) (own : List (List Nat)) : Prop where
  length_eq : own.length = w.spaces.length
  owns : ∀ {i : Nat} {space : AddressSpace} {frames : List Nat}, w.spaces[i]? = some space → own[i]? = some frames →
    Owns arch w.machine.mem space frames
  pool : Pool bound w.machine.mem.frames own.flatten other

/-- One of the lists comes first. -/
theorem flatten_perm_eraseIdx : ∀ {own : List (List Nat)} {i : Nat} {frames : List Nat}, own[i]? = some frames →
    own.flatten.Perm (frames ++ (own.eraseIdx i).flatten)
  | x :: own, 0, frames, h => by
    obtain rfl : x = frames := Option.some.inj h
    exact List.Perm.refl _
  | x :: own, i + 1, frames, h => by
    have ih := flatten_perm_eraseIdx (i := i) h
    rw [List.flatten_cons, List.eraseIdx_cons_succ, List.flatten_cons]
    exact (ih.append_left x).trans (List.perm_append_comm_assoc ..)

theorem mem_flatten_eraseIdx : ∀ {own : List (List Nat)} {i j : Nat} {frames : List Nat}, own[j]? = some frames →
    j ≠ i → ∀ f ∈ frames, f ∈ (own.eraseIdx i).flatten
  | x :: own, 0, 0, _, _, hne, _, _ => absurd rfl hne
  | x :: own, 0, j + 1, frames, h, _, f, hf =>
    List.mem_flatten.2 ⟨frames, List.mem_of_getElem? h, hf⟩
  | x :: own, i + 1, 0, frames, h, _, f, hf => by
    obtain rfl : x = frames := Option.some.inj h
    rw [List.eraseIdx_cons_succ, List.flatten_cons]
    exact List.mem_append_left _ hf
  | x :: own, i + 1, j + 1, frames, h, hne, f, hf => by
    rw [List.eraseIdx_cons_succ, List.flatten_cons]
    exact List.mem_append_right _ (mem_flatten_eraseIdx (List.getElem?_cons_succ ▸ h) (fun he => hne (congrArg (· + 1) he)) f hf)

/-- Another's change does not touch a space. -/
theorem Owns.keeps {arch : Arch} {s s' : Memory} {space : AddressSpace} {own : List Nat} (h : Owns arch s space own)
    (hk : Keeps own s s') : Owns arch s' space own := by
  obtain ⟨P, tables, users, rfl, ht, hu, hp⟩ := h
  exact ⟨P, tables, users, rfl, ht.keeps (hk.mono fun f hf => List.mem_append_left _ hf), hu, hp⟩

namespace Inv

variable {arch : Arch} {bound : Nat} {other : List Extent} {w : World} {own : List (List Nat)}

theorem exists_own (h : Inv arch bound other w own) {i : Nat} {space : AddressSpace} (hi : w.spaces[i]? = some space) :
    ∃ frames, own[i]? = some frames := by
  have hlt := (List.getElem?_eq_some_iff.1 hi).1
  exact ⟨_, List.getElem?_eq_getElem (by rw [h.length_eq]; exact hlt)⟩

/-- Space `i` in front, the frames of the others behind. -/
theorem focus (h : Inv arch bound other w own) {i : Nat} {frames : List Nat} (hi : own[i]? = some frames) :
    Pool bound w.machine.mem.frames (frames ++ (own.eraseIdx i).flatten) other :=
  h.pool.perm (flatten_perm_eraseIdx hi)

/-- A space was changed in its own frames. -/
theorem change (h : Inv arch bound other w own) {i : Nat} {space space' : AddressSpace} (hi : w.spaces[i]? = some space)
    {m : Machine} (hk : Kept arch bound other (own.eraseIdx i).flatten w.machine.mem space' m.mem) :
    ∃ own', Inv arch bound other ⟨m, w.spaces.set i space'⟩ own' := by
  obtain ⟨frames, hown, hpool, hkeep⟩ := hk
  have hlt := (List.getElem?_eq_some_iff.1 hi).1
  have hlt' : i < own.length := by rw [h.length_eq]; exact hlt
  refine ⟨own.set i frames, ?_, ?_, ?_⟩
  · rw [List.length_set, h.length_eq]
    exact List.length_set.symm
  · intro j sp fr hj hf
    by_cases hji : j = i
    · subst hji
      rw [List.getElem?_set_self hlt'] at hf
      have hj' : (w.spaces.set j space')[j]? = some sp := hj
      rw [List.getElem?_set_self hlt] at hj'
      cases hf
      cases hj'
      exact hown
    · rw [List.getElem?_set_ne (Ne.symm hji)] at hf
      have hj' : (w.spaces.set i space')[j]? = some sp := hj
      rw [List.getElem?_set_ne (Ne.symm hji)] at hj'
      exact (h.owns hj' hf).keeps (hkeep.mono (mem_flatten_eraseIdx hf hji))
  · have hself : (own.set i frames)[i]? = some frames := List.getElem?_set_self hlt'
    have hperm := flatten_perm_eraseIdx hself
    rw [List.eraseIdx_set_eq] at hperm
    exact hpool.perm hperm.symm

/-- A space joins the others. -/
theorem add (h : Inv arch bound other w own) {child : AddressSpace} {m : Machine} {frames : List Nat}
    (hown : Owns arch m.mem child frames) (hpool : Pool bound m.mem.frames (frames ++ own.flatten) other)
    (hkeep : Keeps own.flatten w.machine.mem m.mem) : ∃ own', Inv arch bound other ⟨m, w.spaces ++ [child]⟩ own' := by
  refine ⟨own ++ [frames], ?_, ?_, ?_⟩
  · simp [h.length_eq]
  · intro j sp fr hj hf
    have hj' : (w.spaces ++ [child])[j]? = some sp := hj
    rcases Nat.lt_or_ge j w.spaces.length with hlt | hge
    · rw [List.getElem?_append_left hlt] at hj'
      rw [List.getElem?_append_left (by rw [h.length_eq]; exact hlt)] at hf
      refine (h.owns hj' hf).keeps (hkeep.mono fun f hf' => ?_)
      exact List.mem_flatten.2 ⟨fr, List.mem_of_getElem? hf, hf'⟩
    · have hj₁ : j = w.spaces.length := by
        have := (List.getElem?_eq_some_iff.1 hj').1
        simp at this
        omega
      subst hj₁
      rw [List.getElem?_concat_length] at hj'
      rw [← h.length_eq, List.getElem?_concat_length] at hf
      cases hj'
      cases hf
      exact hown
  · rw [List.flatten_append, List.flatten_cons, List.flatten_nil, List.append_nil]
    exact hpool.perm List.perm_append_comm

/-- The frame of a page. -/
theorem page_mem {i : Nat} {space : AddressSpace} {frames : List Nat} (h : Inv arch bound other w own)
    (hi : w.spaces[i]? = some space) (hf : own[i]? = some frames) {va : Nat} {page : VmPage}
    (hp : space.pages[va]? = some page) : page.phys ∈ frames := by
  obtain ⟨P, tables, users, rfl, -, hu, hpages⟩ := h.owns hi hf
  exact List.mem_append_right _ ((hu.mem_iff _).2 ⟨_, _, hpages.get_some hp⟩)

/-- No frame belongs to two pages. -/
theorem page_inj (h : Inv arch bound other w own) {i j : Nat} {space space' : AddressSpace} {va va' : Nat}
    {page page' : VmPage} (hi : w.spaces[i]? = some space) (hj : w.spaces[j]? = some space')
    (hp : space.pages[va]? = some page) (hp' : space'.pages[va']? = some page') (he : page.phys = page'.phys) :
    i = j ∧ va = va' := by
  obtain ⟨frames, hf⟩ := h.exists_own hi
  have hm := h.page_mem hi hf hp
  by_cases hij : i = j
  · subst hij
    obtain rfl : space = space' := Option.some.inj (hi.symm.trans hj)
    obtain ⟨P, tables, users, -, -, hu, hpages⟩ := h.owns hi hf
    have h₁ := hpages.get_some hp
    have h₂ := hpages.get_some hp'
    rw [← he] at h₂
    have hv := hu.inj h₁ h₂
    refine ⟨rfl, ?_⟩
    have ha := (hpages.ok hp).user.1
    have ha' := (hpages.ok hp').user.1
    unfold pageSize at *
    omega
  · obtain ⟨frames', hf'⟩ := h.exists_own hj
    have hm' := mem_flatten_eraseIdx hf' (Ne.symm hij) _ (h.page_mem hj hf' hp')
    exact absurd (he ▸ hm') fun hin => List.disjoint_of_nodup_append (h.focus hf).nodup hm hin

end Inv

/-! ## Steps and runs -/

/-- Calls for pages that the lower half of the root translates, with flags that include `U` and an access. -/
def Op.Valid (arch : Arch) : Op → Prop
  | .mapZeroed _ vaddr flags => Low arch.format (vaddr / pageSize) ∧ flags.u ∧ flags.accessible
  | .replaceZeroed _ start length flags | .protectRange _ start length flags =>
    (∀ va, start ≤ va → va < start + length → Low arch.format (va / pageSize)) ∧ flags.u ∧ flags.accessible
  | _ => True

section Run

variable {arch : Arch} {bound : Nat} {other : List Extent} {w w' : World} {own : List (List Nat)}
  {r : Except MapError Unit}

/-- A change of a page's contents is a change of its space. -/
theorem store_kept {space : AddressSpace} {frames rest : List Nat} {s : Memory} (h : Owns arch s space frames)
    (hpool : Pool bound s.frames (frames ++ rest) other) {va : Nat} {page : VmPage} (hp : space.pages[va]? = some page)
    (words : Nat → Nat) :
    Kept arch bound other rest s space { s with mem := Function.update s.mem page.phys words } := by
  obtain ⟨P, tables, users, rfl, ht, hu, hpages⟩ := h
  have hm : page.phys ∈ users := (hu.mem_iff _).2 ⟨_, _, hpages.get_some hp⟩
  have hnd := List.nodup_append.1 hpool.nodup
  refine ⟨tables ++ users, ⟨P, tables, users, rfl, ht.keeps ?_, hu, hpages⟩, hpool, ?_⟩
  · exact Keeps.of_update (fun hin => (List.nodup_append.1 hnd.1).2.2 _ hin _ hm rfl) rfl rfl
  · exact Keeps.of_update (fun hin => hnd.2.2 _ (List.mem_append_right _ hm) _ hin rfl) rfl rfl

/-- A call on a space that keeps its frames apart keeps the invariant. -/
theorem change_inv {α : Type} (h : Inv arch bound other w own) {i : Nat}
    {op : AddressSpace → Option (Except MapError α × AddressSpace × Machine)}
    (he : (w.spaces[i]?.bind fun space => (op space).map (w.change i)) = some (r, w')) (hr : r ≠ .error .outOfMemory)
    (hop : ∀ {space space' : AddressSpace} {frames rest : List Nat} {m : Machine} {r' : Except MapError α},
      Owns arch w.machine.mem space frames → Pool bound w.machine.mem.frames (frames ++ rest) other →
      op space = some (r', space', m) → r' ≠ .error .outOfMemory →
      Kept arch bound other rest w.machine.mem space' m.mem) :
    ∃ own', Inv arch bound other w' own' := by
  simp only [Option.bind_eq_some_iff, Option.map_eq_some_iff] at he
  obtain ⟨space, hi, ⟨r', space', m⟩, he, hw⟩ := he
  obtain ⟨frames, hf⟩ := h.exists_own hi
  cases hw
  have hr' : r' ≠ .error .outOfMemory := by
    rintro rfl
    exact hr rfl
  exact h.change hi (hop (h.owns hi hf) (h.focus hf) he hr')

/-- **One call** keeps the invariant. -/
theorem step_inv (hb : bound ≤ 2 ^ 36) (h : Inv arch bound other w own) {op : Op} (hv : op.Valid arch)
    (he : w.step arch op = some (r, w')) (hr : r ≠ .error .outOfMemory) : ∃ own', Inv arch bound other w' own' := by
  cases op with
  | empty =>
    obtain ⟨⟨r', m⟩, he, hw⟩ := Option.map_eq_some_iff.1 he
    have hr' : r' ≠ .error .outOfMemory := by
      rintro rfl
      cases hw
      exact hr rfl
    obtain ⟨root, rfl, ht, hpool, hk⟩ := empty_spec arch hb h.pool he hr'
    cases hw
    have hnone : ∀ va : Nat, (∅ : Std.TreeMap Nat VmPage)[va]? = none := fun va => Std.TreeMap.getElem?_emptyc
    refine h.add ⟨_, [root], [], rfl, ht, ⟨fun f => ⟨nofun, nofun⟩, nofun⟩, ?_⟩ hpool hk
    exact ⟨fun v => by rw [hnone]; rfl, fun hv => by rw [hnone] at hv; cases hv⟩
  | activate i =>
    simp only [World.step, Option.bind_eq_bind, Option.bind_eq_some_iff] at he
    obtain ⟨space, hi, he⟩ := he
    cases he
    exact ⟨own, h.length_eq, h.owns, h.pool⟩
  | store i va words =>
    simp only [World.step, Option.bind_eq_bind, Option.bind_eq_some_iff] at he
    obtain ⟨space, hi, page, hp, he⟩ := he
    cases he
    obtain ⟨frames, hf⟩ := h.exists_own hi
    obtain ⟨own', h'⟩ := h.change hi (m := { w.machine with
      mem := { w.machine.mem with mem := Function.update w.machine.mem.mem page.phys words } })
      (store_kept (h.owns hi hf) (h.focus hf) hp words)
    have hset : w.spaces.set i space = w.spaces := by
      obtain ⟨hlt, rfl⟩ := List.getElem?_eq_some_iff.1 hi
      exact List.set_getElem_self hlt
    rw [hset] at h'
    exact ⟨own', h'⟩
  | mapZeroed i va flags =>
    exact change_inv h he hr fun hown hpool he' hr' => mapZeroed_kept hb hown hpool hv.1.own (arch.lawful.encodes_accessible _ hv.2.2) he' hr'
  | replaceZeroed i start length flags =>
    exact change_inv h he hr fun hown hpool he' hr' => replaceZeroed_kept hb hown hpool (fun va h₁ h₂ => (hv.1 va h₁ h₂).own)
      (arch.lawful.encodes_accessible _ hv.2.2) he' hr'
  | protectRange i start length flags =>
    exact change_inv h he hr fun hown hpool he' hr' => protectRange_kept hb hown hpool (arch.lawful.encodes_accessible _ hv.2.2) he' hr'
  | unmapRange i start length =>
    exact change_inv h he hr fun hown hpool he' _ => unmapRange_kept hown hpool he'
  | fork i =>
    simp only [World.step, Option.bind_eq_bind, Option.bind_eq_some_iff, Option.map_eq_some_iff] at he
    obtain ⟨space, hi, ⟨r', m⟩, he, hw⟩ := he
    have hr' : r' ≠ .error .outOfMemory := by
      rintro rfl
      cases hw
      exact hr rfl
    obtain ⟨frames, hf⟩ := h.exists_own hi
    obtain ⟨child, own', rfl, hown, hpool, hk, -⟩ := fork_spec hb (h.owns hi hf) h.pool
      (fun f hm => List.mem_flatten.2 ⟨frames, List.mem_of_getElem? hf, hm⟩) he hr'
    cases hw
    exact h.add hown hpool hk

theorem run_inv (hb : bound ≤ 2 ^ 36) : ∀ (ops : List Op) {w w' : World} {own : List (List Nat)}
    {rs : List (Except MapError Unit)}, Inv arch bound other w own → (∀ op ∈ ops, op.Valid arch) →
    w.run arch ops = some (rs, w') → (∀ r ∈ rs, r ≠ .error .outOfMemory) → ∃ own', Inv arch bound other w' own'
  | [], _, _, own, _, h, _, he, _ => by
    cases he
    exact ⟨own, h⟩
  | op :: ops, w, w', own, rs, h, hv, he, hr => by
    simp only [World.run, Option.bind_eq_bind, Option.bind_eq_some_iff] at he
    obtain ⟨⟨r₁, w₁⟩, he₁, ⟨rs₂, w₂⟩, he₂, he⟩ := he
    cases he
    obtain ⟨own₁, h₁⟩ := step_inv hb h (hv op (List.mem_cons_self ..)) he₁ (hr r₁ (List.mem_cons_self ..))
    exact run_inv hb ops h₁ (fun o ho => hv o (List.mem_cons_of_mem _ ho)) he₂ fun r hr' => hr r (List.mem_cons_of_mem _ hr')

/-! ## Coherence -/

/-- What holds of the address spaces of a machine. -/
structure Coherent (arch : Arch) (w : World) : Prop where
  /-- The hardware finds the pages of the map, with their frames. -/
  translate_eq : ∀ space ∈ w.spaces, ∀ va, Low arch.format (va / pageSize) →
    arch.translate w.machine.mem space.root va =
      (space.pages[pageOf va]?).map fun page => (page.phys + va % pageSize, arch.visible page.flags)
  /-- The map has pages of the lower half only. -/
  pages_low : ∀ space ∈ w.spaces, ∀ (va : Nat) (page : VmPage), space.pages[va]? = some page →
    va % pageSize = 0 ∧ Low arch.format (va / pageSize)
  distinct : ∀ (i j : Nat) (space space' : AddressSpace) (va va' : Nat) (page page' : VmPage),
    w.spaces[i]? = some space → w.spaces[j]? = some space' → space.pages[va]? = some page →
    space'.pages[va']? = some page' → page.phys = page'.phys → i = j ∧ va = va'
  allocated : ∀ space ∈ w.spaces, ∀ (va : Nat) (page : VmPage), space.pages[va]? = some page →
    Marked w.machine.mem.frames page.phys

theorem Inv.coherent (h : Inv arch bound other w own) : Coherent arch w := by
  have hidx : ∀ space ∈ w.spaces, ∃ (i : Nat) (frames : List Nat), w.spaces[i]? = some space ∧ own[i]? = some frames := by
    intro space hs
    obtain ⟨i, hi⟩ := List.mem_iff_getElem?.1 hs
    obtain ⟨frames, hf⟩ := h.exists_own hi
    exact ⟨i, frames, hi, hf⟩
  constructor
  · intro space hs va hlow
    obtain ⟨i, frames, hi, hf⟩ := hidx space hs
    exact (h.owns hi hf).translate_eq hlow
  · intro space hs va page hp
    obtain ⟨i, frames, hi, hf⟩ := hidx space hs
    obtain ⟨P, tables, users, -, -, -, hpages⟩ := h.owns hi hf
    exact ⟨(hpages.ok hp).user.1, own_lowerHalf.1 (hpages.ok hp).user.2⟩
  · intro i j space space' va va' page page' hi hj hp hp' he
    exact h.page_inj hi hj hp hp' he
  · intro space hs va page hp
    obtain ⟨i, frames, hi, hf⟩ := hidx space hs
    exact h.pool.marked (List.mem_flatten.2 ⟨frames, List.mem_of_getElem? hf, h.page_mem hi hf hp⟩)

/-- **Coherence**: after every run of calls that succeed or are refused, the hardware's lower half maps exactly the pages
of the map to their frames with the permissions that the architecture gives to their flags; the frames of all pages are
distinct and allocated; a fork has the addresses, flags and contents of its parent on frames of its own, and leaves the
parent's pages and translations as they were. -/
theorem addressSpace_coherent (arch : Arch) {m₀ : Machine} (halloc : Frame.Reach m₀.mem.frames other)
    (hbelow : ∀ r ∈ m₀.mem.frames.regions, r.startPpn + r.frames ≤ 2 ^ 36) (ops : List Op)
    (hvalid : ∀ op ∈ ops, op.Valid arch) {rs : List (Except MapError Unit)} {w : World}
    (hrun : World.run arch ⟨m₀, []⟩ ops = some (rs, w)) (hrs : ∀ r ∈ rs, r ≠ .error .outOfMemory) :
    Coherent arch w ∧
      ∀ (i : Nat) (parent child : AddressSpace) (m : Machine), w.spaces[i]? = some parent →
        parent.fork arch w.machine = some (.ok child, m) →
        Forked w.machine.mem parent m.mem child ∧ Coherent arch ⟨m, w.spaces ++ [child]⟩ ∧
          (∀ (va : Nat) (page : VmPage), parent.pages[va]? = some page →
            m.mem.mem page.phys = w.machine.mem.mem page.phys) ∧
          ∀ va, Low arch.format (va / pageSize) →
            arch.translate m.mem parent.root va = arch.translate w.machine.mem parent.root va := by
  have hpool : Pool (2 ^ 36) m₀.mem.frames [] other := ⟨halloc.inv, hbelow⟩
  have hinit : Inv arch (2 ^ 36) other ⟨m₀, []⟩ [] := ⟨rfl, nofun, hpool⟩
  obtain ⟨own, h⟩ := run_inv (Nat.le_refl _) ops hinit hvalid hrun hrs
  refine ⟨h.coherent, fun i parent child m hi he => ?_⟩
  obtain ⟨frames, hf⟩ := h.exists_own hi
  have hsub : ∀ f ∈ frames, f ∈ own.flatten := fun f hm => List.mem_flatten.2 ⟨frames, List.mem_of_getElem? hf, hm⟩
  obtain ⟨child', own', hc, hown, hpool', hk, hforked⟩ := fork_spec (Nat.le_refl _) (h.owns hi hf) h.pool hsub he nofun
  cases hc
  obtain ⟨own'', h''⟩ := h.add hown hpool' hk
  refine ⟨hforked, h''.coherent, fun va page hp => (hk _ (hsub _ (h.page_mem hi hf hp))).1, fun va hlow => ?_⟩
  rw [((h.owns hi hf).keeps (hk.mono hsub)).translate_eq hlow, (h.owns hi hf).translate_eq hlow]

end Run

/-- A machine with the frames of `[0x1000, 0x20000)`, all free. -/
def freshMachine : Machine :=
  ⟨⟨(FrameAllocator.new.addRegion 0x1000 0x20000).getD .new, fun _ _ => 0, fun _ => none⟩, 0⟩

theorem freshMachine_region : FrameAllocator.new.addRegion 0x1000 0x20000 = some freshMachine.mem.frames := rfl

/-- A page is mapped and protected, a page is replaced, and the space is forked. -/
def sampleOps : List Op :=
  [.empty, .mapZeroed 0 0x3000 ⟨true, true, false, true⟩, .protectRange 0 0x3000 0x1000 ⟨true, false, false, true⟩,
    .replaceZeroed 0 0x3000 0x2000 ⟨true, true, false, true⟩, .fork 0, .unmapRange 1 0x3000 0x1000]

theorem addressSpace_coherent_sample :
    ∃ rs w, World.run .riscv64 ⟨freshMachine, []⟩ sampleOps = some (rs, w) ∧ Coherent .riscv64 w := by
  have hok : ((World.run .riscv64 ⟨freshMachine, []⟩ sampleOps).map fun x => x.1.all Except.isOk) = some true := by
    decide +kernel
  obtain ⟨⟨rs, w⟩, hrun, hall⟩ := Option.map_eq_some_iff.1 hok
  refine ⟨rs, w, hrun, (addressSpace_coherent .riscv64
    (.add .new (by decide) (by decide) freshMachine_region) (by decide) sampleOps ?_ hrun ?_).1⟩
  · simp only [sampleOps, List.forall_mem_cons, Op.Valid, MappingFlags.accessible, Low, Arch.format, riscv64,
      PteFormat.top, pageSize]
    refine ⟨trivial, by decide, ⟨fun va _ h => ?_, by decide⟩, ⟨fun va _ h => ?_, by decide⟩, trivial, trivial,
      List.forall_mem_nil _⟩ <;>
      omega
  · rintro r hr rfl
    have := List.all_eq_true.1 hall _ hr
    cases this

def readOnly : MappingFlags := ⟨true, false, false, true⟩

/-- On x86_64 a page that is recorded as not executable is executable for the hardware. -/
theorem x86_64_grants_execution :
    ((World.run .x86_64 ⟨freshMachine, []⟩ [.empty, .mapZeroed 0 0x3000 readOnly]).bind fun (rs, w) =>
      w.spaces[0]?.map fun space => (rs.all Except.isOk, (space.pages[0x3000]?).map VmPage.flags,
        (Arch.x86_64.translate w.machine.mem space.root 0x3000).map Prod.snd)) =
      some (true, some readOnly, some { readOnly with x := true }) := by
  decide +kernel

end Koros.Mm
