import Koros.User.Elf

/-!
# Malformed ELF files

- `interpreterPath_calm`: for every byte string `interpreter_path` returns, with a path or with an error;
- `loadSegments_tame`: so does the second loop of `load_active`, as far as it is its own arithmetic;
- `mapElf_safe_iff`: the files that `map_elf` deals with safely in every address space.
-/
set_option autoImplicit false

namespace Koros.Elf

open Koros.Frame Koros.Mmu Koros.Lib Koros.Mm

/-- An error that is returned. -/
def Failure.IsError (e : Failure) : Prop := ∃ message, e = .refused message

/-- No overflow and no access out of range. -/
def Failure.Tame (e : Failure) : Prop := e ≠ .overflow ∧ e ≠ .outOfRange

theorem Failure.IsError.tame {e : Failure} (h : e.IsError) : e.Tame := by
  obtain ⟨message, rfl⟩ := h
  exact ⟨nofun, nofun⟩

section Rules

variable {α β : Type} {E : Failure → Prop} {x : Except Failure α} {f : α → Except Failure β}

theorem within_bind (hx : Within E x) (hf : ∀ a, x = .ok a → Within E (f a)) : Within E (x >>= f) := by
  cases x with
  | error e => exact hx
  | ok a => exact hf a rfl

theorem bind_ok {b : β} (h : (x >>= f) = .ok b) : ∃ a, x = .ok a ∧ f a = .ok b := by
  cases x with
  | error e => cases h
  | ok a => exact ⟨a, rfl, h⟩

theorem bind_of_ok {a : α} (h : x = .ok a) : (x >>= f) = f a := by
  rw [h]
  rfl

theorem bind_of_error {e : Failure} (h : x = .error e) : (x >>= f) = .error e := by
  rw [h]
  rfl

theorem within_okOr (o : Option α) (message : String) : Within Failure.IsError (okOr o message) := by
  cases o with
  | none => exact ⟨message, rfl⟩
  | some a => trivial

theorem okOr_ok {o : Option α} {message : String} {a : α} (h : okOr o message = .ok a) : o = some a := by
  cases o with
  | none => cases h
  | some b =>
    cases h
    rfl

theorem within_errIf (c : Prop) [Decidable c] (message : String) : Within Failure.IsError (errIf c message) := by
  unfold errIf
  split
  · exact ⟨message, rfl⟩
  · trivial

theorem errIf_ok {c : Prop} [Decidable c] {message : String} {u : Unit} (h : errIf c message = .ok u) : ¬ c := by
  intro hc
  rw [errIf, if_pos hc] at h
  cases h

theorem within_optionT_bind {y : OptionT (Except Failure) α} {g : α → OptionT (Except Failure) β} (hy : Within E y.run)
    (hg : ∀ a, Within E (g a).run) : Within E (y >>= g).run := by
  rw [OptionT.run_bind]
  refine within_bind hy fun o _ => ?_
  cases o with
  | none => trivial
  | some a => exact hg a

theorem exists_optionT_bind {y : OptionT (Except Failure) α} {g : α → OptionT (Except Failure) β}
    (hy : ∃ a, y.run = .ok (some a)) (hg : ∀ a, y.run = .ok (some a) → ∃ b, (g a).run = .ok (some b)) :
    ∃ b, (y >>= g).run = .ok (some b) := by
  obtain ⟨a, ha⟩ := hy
  obtain ⟨b, hb⟩ := hg a ha
  refine ⟨b, ?_⟩
  rw [OptionT.run_bind, ha]
  exact hb

theorem within_orRefuse {y : OptionT (Except Failure) α} (hy : Within Failure.IsError y.run) (message : String) :
    Within Failure.IsError (orRefuse y message) :=
  within_bind hy fun o _ => within_okOr o message

end Rules

/-! ## Reading headers -/

section Headers

variable {data : List Byte}

theorem add_eq [Build] {a b : Nat} (h : a + b ≤ usizeMax) : add a b = .ok (a + b) := by
  rw [add, checkedAdd_eq h]
  rfl

theorem add_error {a b : Nat} (h : ¬ a + b ≤ usizeMax) : add a b = .error .overflow := by
  have hnone : checkedAdd a b = none := checked_eq_none.2 fun hlt => h (Nat.le_pred_of_lt hlt)
  rw [add, hnone]
  rfl

theorem sub_eq [Build] {a b : Nat} (h : b ≤ a) : sub a b = .ok (a - b) := by
  rw [sub, checkedSub_eq_some h]
  rfl

theorem read_calm [Build] (n : Nat) (data : List Byte) {offset : Nat} (h : offset + n ≤ usizeMax) :
    Within Failure.IsError (read n data offset).run := by
  refine within_optionT_bind ?_ fun stop => ?_
  · rw [add_eq h]
    trivial
  · exact within_optionT_bind trivial fun bytes => trivial

theorem header_calm [Build] (data : List Byte) : Within Failure.IsError (header data).run := by
  refine within_optionT_bind trivial fun _ => ?_
  repeat refine within_optionT_bind (read_calm _ data (by decide)) fun _ => ?_
  trivial

theorem programHeader_calm [Build] (data : List Byte) (offset : Nat) : Within Failure.IsError (programHeader data offset).run := by
  refine within_optionT_bind trivial fun _ => within_optionT_bind trivial fun part => ?_
  repeat refine within_optionT_bind (read_calm _ part (by decide)) fun _ => ?_
  trivial

theorem findInterpreter_calm [Build] (data : List Byte) (header : ElfHeader) (is : List Nat) :
    Within Failure.IsError (findInterpreter data header is) := by
  induction is with
  | nil => trivial
  | cons i is ih =>
    refine within_bind (within_okOr _ _) fun size _ => within_bind (within_okOr _ _) fun offset _ =>
      within_bind (within_orRefuse (programHeader_calm data offset) _) fun phdr _ => ?_
    split
    · exact ih
    · exact within_bind (within_okOr _ _) fun _ _ => within_bind (within_okOr _ _) fun _ _ =>
        within_bind (within_okOr _ _) fun _ _ => trivial

/-- **`interpreter_path` never panics.** -/
theorem interpreterPath_calm [Build] (data : List Byte) : Within Failure.IsError (interpreterPath data) :=
  within_bind (within_orRefuse (header_calm data) _) fun _ _ => findInterpreter_calm data _ _

theorem acceptHeader_calm [Build] (arch : Mm.Arch) (data : List Byte) (forcedBase : Option Nat) :
    Within Failure.IsError (acceptHeader arch data forcedBase) := by
  refine within_bind (within_errIf _ _) fun _ _ => within_bind (within_orRefuse (header_calm data) _) fun header _ =>
    within_bind (within_errIf _ _) fun _ _ => within_bind (within_errIf _ _) fun _ _ => within_bind ?_ fun base _ =>
    within_bind (within_okOr _ _) fun _ _ => within_bind (within_okOr _ _) fun _ _ =>
    within_bind (within_errIf _ _) fun _ _ => trivial
  unfold defaultBase
  split
  · trivial
  · split
    · trivial
    · exact ⟨_, rfl⟩

/-- The program headers of an accepted file are inside it. -/
theorem acceptHeader_ok [Build] {arch : Mm.Arch} {forcedBase : Option Nat} {header : ElfHeader} {base : Nat}
    (h : acceptHeader arch data forcedBase = .ok (header, base)) :
    header.programOffset + header.programCount * programHeaderSize ≤ usizeMax ∧
      header.programOffset + header.programCount * programHeaderSize ≤ data.length := by
  unfold acceptHeader at h
  obtain ⟨_, -, h⟩ := bind_ok h
  obtain ⟨header', -, h⟩ := bind_ok h
  obtain ⟨_, -, h⟩ := bind_ok h
  obtain ⟨_, -, h⟩ := bind_ok h
  obtain ⟨base', -, h⟩ := bind_ok h
  obtain ⟨size, hsize, h⟩ := bind_ok h
  obtain ⟨stop, hstop, h⟩ := bind_ok h
  obtain ⟨_, hend, h⟩ := bind_ok h
  cases h
  have hend := errIf_ok hend
  obtain ⟨-, rfl⟩ := checkedMul_some (okOr_ok hsize)
  obtain ⟨hle, rfl⟩ := checkedAdd_some (okOr_ok hstop)
  exact ⟨hle, Nat.le_of_not_lt hend⟩

theorem getRange_eq {start stop : Nat} (h : start ≤ stop) (hlen : stop ≤ data.length) :
    getRange data start stop = some ((data.drop start).take (stop - start)) := if_pos ⟨h, hlen⟩

theorem index_eq {start stop : Nat} (h : start ≤ stop) (hlen : stop ≤ data.length) :
    index data start stop = .ok ((data.drop start).take (stop - start)) := by
  rw [index, getRange_eq h hlen]
  rfl

/-- A field inside the bytes is read. -/
theorem read_run [Build] {n offset : Nat} (h : offset + n ≤ data.length) (hmax : offset + n ≤ usizeMax) :
    ∃ x, (read n data offset).run = .ok (some x) := by
  refine exists_optionT_bind ⟨offset + n, ?_⟩ fun stop hstop => ?_
  · rw [add_eq hmax]
    rfl
  · rw [add_eq hmax] at hstop
    cases hstop
    exact exists_optionT_bind ⟨_, congrArg Except.ok (getRange_eq (Nat.le_add_right ..) h)⟩ fun bytes _ => ⟨_, rfl⟩

/-- A program header inside the file is read. -/
theorem programHeader_run [Build] {offset : Nat} (h : offset + programHeaderSize ≤ data.length)
    (hmax : offset + programHeaderSize ≤ usizeMax) : ∃ phdr, (programHeader data offset).run = .ok (some phdr) := by
  have hadd : checkedAdd offset programHeaderSize = some (offset + programHeaderSize) := checkedAdd_eq hmax
  refine exists_optionT_bind ⟨_, congrArg Except.ok hadd⟩ fun stop hstop => ?_
  obtain rfl : offset + programHeaderSize = stop := by
    rw [← Option.some.injEq, ← hadd]
    exact Except.ok.inj hstop
  refine exists_optionT_bind ⟨_, congrArg Except.ok (getRange_eq (Nat.le_add_right ..) h)⟩ fun part hpart => ?_
  have hlen : part.length = 56 := by
    have hpart : getRange data offset (offset + programHeaderSize) = some part := Except.ok.inj hpart
    rw [getRange_eq (Nat.le_add_right ..) h] at hpart
    cases hpart
    rw [List.length_take, List.length_drop]
    unfold programHeaderSize at *
    omega
  repeat refine exists_optionT_bind (read_run (by omega) (by decide)) fun _ _ => ?_
  exact ⟨_, rfl⟩

end Headers

/-! ## The segments of a file -/

/-- The loadable segments with the given indices. -/
def loadsAt [Build] (data : List Byte) (header : ElfHeader) (is : List Nat) : List ProgramHeader :=
  is.filterMap fun i =>
    match programHeaderAt data header i with
    | .ok phdr => if phdr.segmentType = ptLoad then some phdr else none
    | .error _ => none

/-- The loadable segments of a file. -/
def loads [Build] (data : List Byte) (header : ElfHeader) : List ProgramHeader :=
  loadsAt data header (List.range header.programCount)

/-- A segment that wraps around or ends above `ADDRESS_LIMIT`. -/
def Excessive (arch : Mm.Arch) (base : Nat) (phdr : ProgramHeader) : Prop :=
  arch.userAddressLimit < base + phdr.virtualAddress + phdr.memorySize

section Segments

variable {arch : Mm.Arch} {data : List Byte} {header : ElfHeader} {base : Nat} {forcedBase : Option Nat}
  {phdr : ProgramHeader}

/-- All program headers of the indices can be read. -/
def Readable [Build] (data : List Byte) (header : ElfHeader) (is : List Nat) : Prop :=
  ∀ i ∈ is, ∃ phdr, programHeaderAt data header i = .ok phdr

theorem readable_of_accepted [Build] (h : acceptHeader arch data forcedBase = .ok (header, base)) :
    Readable data header (List.range header.programCount) := by
  obtain ⟨hmax, hlen⟩ := acceptHeader_ok h
  intro i hi
  have hi := List.mem_range.1 hi
  have hle : (i + 1) * programHeaderSize ≤ header.programCount * programHeaderSize := Nat.mul_le_mul_right _ hi
  rw [Nat.succ_mul] at hle
  obtain ⟨phdr, hphdr⟩ : ∃ phdr, (programHeader data (header.programOffset + i * programHeaderSize)).run = .ok (some phdr) :=
    programHeader_run (by omega) (by omega)
  refine ⟨phdr, ?_⟩
  have hmul : mul i programHeaderSize = .ok (i * programHeaderSize) := by
    rw [mul, checkedMul_eq (by omega)]
    rfl
  rw [programHeaderAt, hmul]
  show (add header.programOffset (i * programHeaderSize) >>= _) = _
  rw [add_eq (by omega)]
  show orRefuse (programHeader data (header.programOffset + i * programHeaderSize)) _ = _
  rw [orRefuse, hphdr]
  rfl

theorem loadsAt_cons_of_load [Build] {i : Nat} {is : List Nat} (h : programHeaderAt data header i = .ok phdr)
    (hl : phdr.segmentType = ptLoad) : loadsAt data header (i :: is) = phdr :: loadsAt data header is :=
  List.filterMap_cons_some (by rw [h]; exact if_pos hl)

theorem loadsAt_cons_of_other [Build] {i : Nat} {is : List Nat} (h : programHeaderAt data header i = .ok phdr)
    (hl : phdr.segmentType ≠ ptLoad) : loadsAt data header (i :: is) = loadsAt data header is :=
  List.filterMap_cons_none (by rw [h]; exact if_neg hl)

/-- The first loop does not overflow on the segment. -/
def Fits (base : Nat) (phdr : ProgramHeader) : Prop :=
  base + phdr.virtualAddress + phdr.memorySize + pageSize ≤ usizeMax

theorem firstPages_of_fits [Build] (h : Fits base phdr) : firstPages base phdr =
    .ok (stepBy (pageOf (base + phdr.virtualAddress))
      (pageOf (base + phdr.virtualAddress + phdr.memorySize + pageSize - 1))) := by
  unfold Fits at h
  have h₁ : base + phdr.virtualAddress ≤ usizeMax := by omega
  have h₂ : base + phdr.virtualAddress + phdr.memorySize ≤ usizeMax := by omega
  have h₃ : 1 ≤ base + phdr.virtualAddress + phdr.memorySize + pageSize :=
    Nat.le_trans (show 1 ≤ pageSize by decide) (Nat.le_add_left ..)
  rw [firstPages, bind_of_ok (add_eq h₁), bind_of_ok (add_eq h₂), bind_of_ok (add_eq h), bind_of_ok (sub_eq h₃)]
  rfl

theorem firstPages_of_not_fits (h : ¬ Fits base phdr) : firstPages base phdr = .error .overflow := by
  unfold Fits at h
  rw [firstPages]
  by_cases h₁ : base + phdr.virtualAddress ≤ usizeMax
  · rw [bind_of_ok (add_eq h₁)]
    by_cases h₂ : base + phdr.virtualAddress + phdr.memorySize ≤ usizeMax
    · rw [bind_of_ok (add_eq h₂), bind_of_error (add_error h)]
    · rw [bind_of_error (add_error h₂)]
  · rw [bind_of_error (add_error h₁)]

/-- **The first loop** overflows exactly if one of the segments does. -/
theorem collectFlags_ok_iff : ∀ {is : List Nat} (pageFlags : PageFlags), Readable data header is →
    ((∃ flags, collectFlags data header base is pageFlags = .ok flags) ↔ ∀ phdr ∈ loadsAt data header is, Fits base phdr) ∧
      ((∃ flags, collectFlags data header base is pageFlags = .ok flags) ∨
        collectFlags data header base is pageFlags = .error .overflow) := by
  intro is
  induction is with
  | nil => exact fun pageFlags _ => ⟨iff_of_true ⟨_, rfl⟩ nofun, Or.inl ⟨_, rfl⟩⟩
  | cons i is ih =>
    intro pageFlags hread
    obtain ⟨phdr, hphdr⟩ := hread i List.mem_cons_self
    have hrest : Readable data header is := fun j hj => hread j (List.mem_cons_of_mem _ hj)
    rw [collectFlags, bind_of_ok hphdr]
    by_cases hl : phdr.segmentType = ptLoad
    · rw [loadsAt_cons_of_load hphdr hl, List.forall_mem_cons, if_neg (not_not.2 hl)]
      by_cases hfits : Fits base phdr
      · rw [bind_of_ok (firstPages_of_fits hfits)]
        exact (ih _ hrest).imp_left fun hiff => hiff.trans (and_iff_right hfits).symm
      · rw [bind_of_error (firstPages_of_not_fits hfits)]
        exact ⟨iff_of_false nofun fun hall => hfits hall.1, Or.inr rfl⟩
    · rw [loadsAt_cons_of_other hphdr hl, if_pos hl]
      exact ih pageFlags hrest

/-! ## The second loop -/

theorem checkSegment_calm : Within Failure.IsError (checkSegment data base arch phdr) := by
  unfold checkSegment
  refine within_bind (within_okOr _ _) fun _ _ => ?_
  refine within_bind (within_okOr _ _) fun _ _ => ?_
  refine within_bind (within_errIf _ _) fun _ _ => ?_
  refine within_bind (within_okOr _ _) fun _ _ => ?_
  refine within_bind (within_errIf _ _) fun _ _ => ?_
  generalize checkedAdd _ (pageSize - 1) = pageEnd
  refine within_bind (within_okOr _ _) fun _ _ => ?_
  exact True.intro

/-- A segment that passes the checks. -/
structure Checked (arch : Mm.Arch) (data : List Byte) (base : Nat) (phdr : ProgramHeader) : Prop where
  start_lt : base + phdr.virtualAddress < arch.userAddressLimit
  end_le : base + phdr.virtualAddress + phdr.memorySize ≤ arch.userAddressLimit
  sizes : phdr.fileSize ≤ phdr.memorySize
  file_le : phdr.offset + phdr.fileSize ≤ data.length
  file_max : phdr.offset + phdr.fileSize ≤ usizeMax

/-- The first loop does not overflow on a segment that passes the checks of the second. -/
theorem Checked.fits (h : Checked arch data base phdr) : Fits base phdr := by
  have hlimit : arch.userAddressLimit + pageSize ≤ usizeMax := by cases arch <;> decide
  have hend := h.end_le
  unfold Fits
  omega

/-- The pages that a segment touches. -/
def segmentPages (base : Nat) (phdr : ProgramHeader) : List Nat :=
  stepBy (pageOf (base + phdr.virtualAddress)) (pageOf (base + phdr.virtualAddress + phdr.memorySize + (pageSize - 1)))

theorem checkSegment_ok {x : Nat × List Nat} (h : checkSegment data base arch phdr = .ok x) :
    Checked arch data base phdr ∧ x = (base + phdr.virtualAddress, segmentPages base phdr) := by
  obtain ⟨segVaddr, h₁, h⟩ := bind_ok h
  obtain ⟨segEnd, h₂, h⟩ := bind_ok h
  obtain ⟨_, h₃, h⟩ := bind_ok h
  obtain ⟨fileEnd, h₄, h⟩ := bind_ok h
  obtain ⟨_, h₅, h⟩ := bind_ok h
  obtain ⟨pageEnd, h₆, h⟩ := bind_ok h
  obtain ⟨-, rfl⟩ := checkedAdd_some (okOr_ok h₁)
  obtain ⟨-, rfl⟩ := checkedAdd_some (okOr_ok h₂)
  obtain ⟨hfile, rfl⟩ := checkedAdd_some (okOr_ok h₄)
  obtain ⟨-, rfl⟩ := checkedAdd_some (okOr_ok h₆)
  have h₃ := errIf_ok h₃
  have h₅ := errIf_ok h₅
  simp only [not_or, gt_iff_lt, ge_iff_le, Nat.not_lt, Nat.not_le] at h₃ h₅
  cases h
  exact ⟨⟨h₅.2.1, h₅.2.2, h₃, h₅.1, hfile⟩, rfl⟩

theorem checkSegment_error (h : Excessive arch base phdr) :
    ∃ message, checkSegment data base arch phdr = .error (.refused message) := by
  have hcalm : Within Failure.IsError (checkSegment data base arch phdr) := checkSegment_calm
  cases hx : checkSegment data base arch phdr with
  | ok x => exact absurd (checkSegment_ok hx).1.end_le (Nat.not_le.2 h)
  | error e =>
    rw [hx] at hcalm
    obtain ⟨message, rfl⟩ := hcalm
    exact ⟨message, rfl⟩

/-- How many of the first `n` bytes of a segment are in a page. -/
def inPage (seg vaddr n : Nat) : Nat := min (n - (vaddr - seg)) (pageSize - (seg - vaddr))

theorem start_lt_pageSize {seg vaddr : Nat} (hv : pageOf seg ≤ vaddr) : seg - vaddr < pageSize := by
  unfold pageOf pageSize at *
  omega

/-- The bytes of the file that go into a page. -/
theorem fileWindow_eq [Build] (h : Checked arch data base phdr) {seg vaddr : Nat} (hv : pageOf seg ≤ vaddr) :
    fileWindow data phdr seg vaddr =
      .ok (seg - vaddr, (data.drop (phdr.offset + (vaddr - seg))).take (inPage seg vaddr phdr.fileSize)) := by
  have h₁ := h.file_le
  have h₂ := h.file_max
  have hstart := start_lt_pageSize hv
  unfold fileWindow inPage
  dsimp only
  rw [Nat.min_comm (phdr.fileSize - (vaddr - seg))]
  split
  · rename_i hin
    have hpos : 0 < min (pageSize - (seg - vaddr)) (phdr.fileSize - (vaddr - seg)) := by omega
    have hle : min (pageSize - (seg - vaddr)) (phdr.fileSize - (vaddr - seg)) ≤ phdr.fileSize - (vaddr - seg) :=
      Nat.min_le_right ..
    have hfile : phdr.offset + (vaddr - seg) + min (pageSize - (seg - vaddr)) (phdr.fileSize - (vaddr - seg)) ≤
        data.length := by omega
    have hadd : phdr.offset + (vaddr - seg) ≤ usizeMax := by omega
    have hend : phdr.offset + (vaddr - seg) + min (pageSize - (seg - vaddr)) (phdr.fileSize - (vaddr - seg)) ≤
        usizeMax := by omega
    rw [bind_of_ok (add_eq hadd), bind_of_ok (sub_eq (Nat.le_of_lt hstart)), bind_of_ok (sub_eq (Nat.le_of_lt hin.1)),
      bind_of_ok (add_eq hend), if_pos ⟨Nat.lt_add_of_pos_right hpos, hfile⟩,
      bind_of_ok (index_eq (Nat.le_add_right ..) hfile), Nat.add_sub_cancel_left]
    rfl
  · rename_i hin
    have : phdr.fileSize - (vaddr - seg) = 0 := by omega
    rw [this, Nat.min_zero, List.take_zero]
    rfl

/-- The part of a page that is zeroed: what the segment has there behind its bytes of the file. -/
theorem bssWindow_eq [Build] {seg vaddr : Nat} (hv : pageOf seg ≤ vaddr) : bssWindow phdr seg vaddr =
    .ok (if inPage seg vaddr phdr.fileSize < inPage seg vaddr phdr.memorySize then
        (seg - vaddr + inPage seg vaddr phdr.fileSize, inPage seg vaddr phdr.memorySize - inPage seg vaddr phdr.fileSize)
      else (0, 0)) := by
  have hstart := start_lt_pageSize hv
  have hmax : 2 * pageSize ≤ usizeMax := by decide
  have hf := Nat.min_le_right (phdr.fileSize - (vaddr - seg)) (pageSize - (seg - vaddr))
  have hm := Nat.min_le_right (phdr.memorySize - (vaddr - seg)) (pageSize - (seg - vaddr))
  unfold bssWindow inPage
  dsimp only
  rw [bind_of_ok (sub_eq (Nat.le_of_lt hstart))]
  generalize min (phdr.fileSize - (vaddr - seg)) (pageSize - (seg - vaddr)) = inFile at *
  generalize min (phdr.memorySize - (vaddr - seg)) (pageSize - (seg - vaddr)) = inMemory at *
  split
  · rw [bind_of_ok (add_eq (by omega)), bind_of_ok (add_eq (by omega)), bind_of_ok (sub_eq (by omega)),
      Nat.add_sub_add_left]
    rfl
  · rfl

/-! ## What the loops can end with -/

theorem compute_tame {α : Type} {x : Except Failure α} (h : Within Failure.Tame x) :
    Keeps Failure.Tame (fun _ => True) (compute x) := by
  intro s _
  cases x with
  | ok a => exact ⟨trivial, trivial⟩
  | error e => exact ⟨h, trivial⟩

theorem framePage_tame (vaddr : Nat) (flags : MappingFlags) :
    Keeps Failure.Tame (fun _ => True) (framePage arch vaddr flags) := by
  refine Keeps.get_bind fun (space, m) _ => ?_
  dsimp only
  split
  · exact Keeps.pure _
  · intro (space, m) _
    unfold mapPage
    dsimp only
    split
    · exact ⟨⟨nofun, nofun⟩, trivial⟩
    · exact ⟨⟨nofun, nofun⟩, trivial⟩
    · exact ⟨trivial, trivial⟩

theorem store_tame (paddr : Nat) (bytes : List Byte) : Keeps Failure.Tame (fun _ => True) (store paddr bytes) :=
  fun _ _ => ⟨trivial, trivial⟩

theorem fillPage_tame [Build] (pageFlags : PageFlags) (h : Checked arch data base phdr) {seg vaddr : Nat}
    (hv : pageOf seg ≤ vaddr) : Keeps Failure.Tame (fun _ => True) (fillPage arch data pageFlags phdr seg vaddr) := by
  unfold fillPage
  rw [fileWindow_eq h hv, bssWindow_eq hv]
  refine Keeps.bind (framePage_tame _ _) fun paddr => Keeps.bind (compute_tame trivial) fun x => ?_
  refine Keeps.bind (store_tame _ _) fun _ => Keeps.bind (compute_tame trivial) fun y => ?_
  exact store_tame _ _

theorem loadSegment_of_ok [Build] {x : Nat × List Nat} (pageFlags : PageFlags) (h : checkSegment data base arch phdr = .ok x) :
    loadSegment arch data base pageFlags phdr = x.2.forM (fillPage arch data pageFlags phdr x.1) := by
  rw [loadSegment, h]
  rfl

theorem loadSegment_of_error [Build] {e : Failure} (pageFlags : PageFlags) (h : checkSegment data base arch phdr = .error e)
    (s : AddressSpace × Machine) : loadSegment arch data base pageFlags phdr s = .error e s := by
  rw [loadSegment, h]
  rfl

theorem loadSegment_tame [Build] (pageFlags : PageFlags) :
    Keeps Failure.Tame (fun _ => True) (loadSegment arch data base pageFlags phdr) := by
  cases hx : checkSegment data base arch phdr with
  | error e =>
    have hcalm : Within Failure.IsError (checkSegment data base arch phdr) := checkSegment_calm
    rw [hx] at hcalm
    intro s _
    rw [loadSegment_of_error pageFlags hx]
    exact ⟨Failure.IsError.tame hcalm, trivial⟩
  | ok x =>
    obtain ⟨hc, rfl⟩ := checkSegment_ok hx
    rw [loadSegment_of_ok pageFlags hx]
    exact Keeps.forM _ fun vaddr hv => fillPage_tame pageFlags hc (mem_stepBy hv).1

theorem loadSegments_cons [Build] {i : Nat} {is : List Nat} (pageFlags : PageFlags) (h : programHeaderAt data header i = .ok phdr) :
    loadSegments arch data header base pageFlags (i :: is) =
      if phdr.segmentType = ptLoad then
        loadSegment arch data base pageFlags phdr >>= fun _ => loadSegments arch data header base pageFlags is
      else loadSegments arch data header base pageFlags is := by
  rw [loadSegments, h]
  by_cases hl : phdr.segmentType = ptLoad
  · rw [if_pos hl]
    exact if_neg (not_not.2 hl)
  · rw [if_neg hl]
    exact if_pos hl

/-- **The second loop** neither overflows nor leaves the file. -/
theorem loadSegments_tame [Build] (pageFlags : PageFlags) : ∀ {is : List Nat}, Readable data header is →
    Keeps Failure.Tame (fun _ => True) (loadSegments arch data header base pageFlags is) := by
  intro is
  induction is with
  | nil => exact fun _ => Keeps.pure _
  | cons i is ih =>
    intro hread
    obtain ⟨phdr, hphdr⟩ := hread i List.mem_cons_self
    have hrest := ih fun j hj => hread j (List.mem_cons_of_mem _ hj)
    rw [loadSegments_cons pageFlags hphdr]
    split
    · exact Keeps.bind (loadSegment_tame pageFlags) fun _ => hrest
    · exact hrest

/-- It refuses a file with a segment that fails the checks. -/
theorem loadSegments_fails [Build] (pageFlags : PageFlags) : ∀ {is : List Nat}, Readable data header is →
    (∃ phdr ∈ loadsAt data header is, ∃ e, checkSegment data base arch phdr = .error e) →
    Fails Failure.Tame (fun _ => True) (loadSegments arch data header base pageFlags is) := by
  intro is
  induction is with
  | nil =>
    rintro _ ⟨phdr, hmem, -⟩
    cases hmem
  | cons i is ih =>
    intro hread hbad
    obtain ⟨phdr, hphdr⟩ := hread i List.mem_cons_self
    have hrest : Readable data header is := fun j hj => hread j (List.mem_cons_of_mem _ hj)
    rw [loadSegments_cons pageFlags hphdr]
    by_cases hl : phdr.segmentType = ptLoad
    · rw [if_pos hl]
      rw [loadsAt_cons_of_load hphdr hl] at hbad
      obtain ⟨bad, hmem, e, he⟩ := hbad
      rcases List.mem_cons.1 hmem with rfl | hmem
      · refine Fails.bind_left fun s hs => ⟨e, s, loadSegment_of_error pageFlags he s, ?_, trivial⟩
        have hcalm : Within Failure.IsError (checkSegment data base arch bad) := checkSegment_calm
        rw [he] at hcalm
        exact Failure.IsError.tame hcalm
      · exact Fails.bind (loadSegment_tame pageFlags) fun _ => ih hrest ⟨bad, hmem, e, he⟩
    · rw [if_neg hl]
      rw [loadsAt_cons_of_other hphdr hl] at hbad
      exact ih hrest hbad

/-! ## The third loop -/

theorem findPhdrAddr_ok [Build] (phdrAddr : Nat) : ∀ {is : List Nat}, Readable data header is →
    (∀ phdr ∈ loadsAt data header is, Checked arch data base phdr) →
    ∃ a, findPhdrAddr data header base phdrAddr is = .ok a := by
  intro is
  induction is with
  | nil => exact fun _ _ => ⟨_, rfl⟩
  | cons i is ih =>
    intro hread hall
    obtain ⟨phdr, hphdr⟩ := hread i List.mem_cons_self
    have hrest : Readable data header is := fun j hj => hread j (List.mem_cons_of_mem _ hj)
    rw [findPhdrAddr, bind_of_ok hphdr]
    by_cases hl : phdr.segmentType = ptLoad
    · rw [loadsAt_cons_of_load hphdr hl, List.forall_mem_cons] at hall
      obtain ⟨hc, hall⟩ := hall
      rw [if_pos hl]
      by_cases hge : header.programOffset ≥ phdr.offset
      · dsimp only
        rw [if_pos hge, bind_of_ok (add_eq hc.file_max)]
        by_cases hlt : header.programOffset < phdr.offset + phdr.fileSize
        · have hlimit := arch.userAddressLimit_le
          have hend := hc.end_le
          have hsizes := hc.sizes
          rw [if_pos hlt, bind_of_ok (add_eq (by omega)), bind_of_ok (sub_eq hge)]
          exact ⟨_, add_eq (by omega)⟩
        · rw [if_neg hlt]
          exact ih hrest hall
      · dsimp only
        rw [if_neg hge]
        exact ih hrest hall
    · rw [loadsAt_cons_of_other hphdr hl] at hall
      rw [if_neg hl]
      exact ih hrest hall

/-- What `load_active` computes last overflows exactly if the entry or the address of the program headers does. -/
theorem auxImage_ok_iff (hread : Readable data header (List.range header.programCount))
    (hall : ∀ phdr ∈ loads data header, Checked arch data base phdr) :
    ((∃ aux, auxImage data header base = .ok aux) ↔
        base + header.entry ≤ usizeMax ∧ base + header.programOffset ≤ usizeMax) ∧
      ((∃ aux, auxImage data header base = .ok aux) ∨ auxImage data header base = .error .overflow) := by
  unfold auxImage
  by_cases h₁ : base + header.entry ≤ usizeMax
  · rw [bind_of_ok (add_eq h₁)]
    by_cases h₂ : base + header.programOffset ≤ usizeMax
    · obtain ⟨a, ha⟩ := findPhdrAddr_ok (base + header.programOffset) hread hall
      rw [bind_of_ok (add_eq h₂), bind_of_ok ha]
      exact ⟨iff_of_true ⟨_, rfl⟩ ⟨h₁, h₂⟩, Or.inl ⟨_, rfl⟩⟩
    · rw [bind_of_error (add_error h₂)]
      exact ⟨iff_of_false nofun fun h => h₂ h.2, Or.inr rfl⟩
  · rw [bind_of_error (add_error h₁)]
    exact ⟨iff_of_false nofun fun h => h₁ h.1, Or.inr rfl⟩

/-! ## Pages that are there -/

/-- What a page is filled with: the bytes of the file and the zeros behind them, at their places in the frame. -/
def filledPage (data : List Byte) (phdr : ProgramHeader) (seg vaddr paddr : Nat) (s : Memory) : Memory :=
  let bytes := (data.drop (phdr.offset + (vaddr - seg))).take (inPage seg vaddr phdr.fileSize)
  let (bssStart, length) := if inPage seg vaddr phdr.fileSize < inPage seg vaddr phdr.memorySize then
    (seg - vaddr + inPage seg vaddr phdr.fileSize, inPage seg vaddr phdr.memorySize - inPage seg vaddr phdr.fileSize)
    else (0, 0)
  copyTo (copyTo s (paddr + (seg - vaddr)) bytes) (paddr + bssStart) (List.replicate length 0)

theorem fillPage_eq [Build] (pageFlags : PageFlags) (hc : Checked arch data base phdr) {seg vaddr : Nat} (hv : pageOf seg ≤ vaddr)
    (s : AddressSpace × Machine) : fillPage arch data pageFlags phdr seg vaddr s =
      match framePage arch vaddr ((pageFlags[vaddr]?).getD (segmentFlags phdr)) s with
      | .error e s' => .error e s'
      | .ok paddr (space, m) => .ok () (space, { m with mem := filledPage data phdr seg vaddr paddr m.mem }) := by
  rw [fillPage, fileWindow_eq hc hv, bssWindow_eq hv, bind_apply]
  cases framePage arch vaddr ((pageFlags[vaddr]?).getD (segmentFlags phdr)) s with
  | error e s' => rfl
  | ok paddr s' => rfl

theorem framePage_eq (vaddr : Nat) (flags : MappingFlags) (space : AddressSpace) (m : Machine) :
    framePage arch vaddr flags (space, m) =
      (match space.translate vaddr with
        | some paddr => pure paddr
        | none => mapPage arch vaddr flags : Loader Nat) (space, m) := rfl

theorem framePage_of_some {space : AddressSpace} {vaddr paddr : Nat} (ht : space.translate vaddr = some paddr)
    (flags : MappingFlags) (m : Machine) : framePage arch vaddr flags (space, m) = .ok paddr (space, m) := by
  rw [framePage_eq, ht]
  rfl

theorem fillPages_reuses [Build] (pageFlags : PageFlags) (hc : Checked arch data base phdr) {seg : Nat} {space : AddressSpace} :
    ∀ {pages : List Nat} (m : Machine), (∀ vaddr ∈ pages, pageOf seg ≤ vaddr ∧ space.translate vaddr ≠ none) →
    ∃ m', pages.forM (fillPage arch data pageFlags phdr seg) (space, m) = .ok () (space, m') := by
  intro pages
  induction pages with
  | nil => exact fun m _ => ⟨m, rfl⟩
  | cons vaddr pages ih =>
    intro m hall
    rw [List.forall_mem_cons] at hall
    obtain ⟨⟨hv, ht⟩, hall⟩ := hall
    obtain ⟨paddr, hp⟩ := Option.ne_none_iff_exists'.1 ht
    obtain ⟨m', hm'⟩ := ih { m with mem := filledPage data phdr seg vaddr paddr m.mem } hall
    refine ⟨m', ?_⟩
    show (fillPage arch data pageFlags phdr seg vaddr >>= fun _ => pages.forM (fillPage arch data pageFlags phdr seg))
      (space, m) = _
    rw [bind_apply, fillPage_eq pageFlags hc hv, framePage_of_some hp]
    exact hm'

/-- A file whose segments pass the checks is loaded where all its pages are mapped. -/
theorem loadSegments_reuses [Build] (pageFlags : PageFlags) {space : AddressSpace} : ∀ {is : List Nat} (m : Machine),
    Readable data header is → (∀ phdr ∈ loadsAt data header is, (∃ x, checkSegment data base arch phdr = .ok x) ∧
      ∀ vaddr ∈ segmentPages base phdr, space.translate vaddr ≠ none) →
    ∃ m', loadSegments arch data header base pageFlags is (space, m) = .ok () (space, m') := by
  intro is
  induction is with
  | nil => exact fun m _ _ => ⟨m, rfl⟩
  | cons i is ih =>
    intro m hread hall
    obtain ⟨phdr, hphdr⟩ := hread i List.mem_cons_self
    have hrest : Readable data header is := fun j hj => hread j (List.mem_cons_of_mem _ hj)
    rw [loadSegments_cons pageFlags hphdr]
    by_cases hl : phdr.segmentType = ptLoad
    · rw [loadsAt_cons_of_load hphdr hl, List.forall_mem_cons] at hall
      obtain ⟨⟨⟨x, hx⟩, hmapped⟩, hall⟩ := hall
      obtain ⟨hc, rfl⟩ := checkSegment_ok hx
      obtain ⟨m₁, hm₁⟩ : ∃ m₁, (segmentPages base phdr).forM
          (fillPage arch data pageFlags phdr (base + phdr.virtualAddress)) (space, m) = .ok () (space, m₁) :=
        fillPages_reuses pageFlags hc m fun vaddr hv => ⟨(mem_stepBy hv).1, hmapped vaddr hv⟩
      obtain ⟨m', hm'⟩ := ih m₁ hrest hall
      refine ⟨m', ?_⟩
      rw [if_pos hl, bind_apply, loadSegment_of_ok pageFlags hx]
      dsimp only
      rw [hm₁]
      exact hm'
    · rw [loadsAt_cons_of_other hphdr hl] at hall
      rw [if_neg hl]
      exact ih m hrest hall

theorem exists_pages (l : List Nat) : ∃ pages : Std.TreeMap Nat VmPage, ∀ va ∈ l, pages[va]? ≠ none := by
  induction l with
  | nil => exact ⟨∅, nofun⟩
  | cons va l ih =>
    obtain ⟨pages, hpages⟩ := ih
    refine ⟨pages.insert va ⟨0, ⟨true, true, true, true⟩⟩, fun w hw => ?_⟩
    rw [Std.TreeMap.getElem?_insert]
    split
    · exact nofun
    · rename_i hne
      refine hpages w ((List.mem_cons.1 hw).resolve_left fun he => hne ?_)
      rw [he]
      exact Nat.compare_eq_eq.2 rfl

/-- A space with all pages of the segments. -/
theorem exists_mapped (base : Nat) (phdrs : List ProgramHeader) : ∃ space : AddressSpace, ∀ phdr ∈ phdrs,
    ∀ vaddr ∈ segmentPages base phdr, space.translate vaddr ≠ none := by
  obtain ⟨pages, hpages⟩ := exists_pages (phdrs.flatMap (segmentPages base))
  refine ⟨⟨0, true, pages⟩, fun phdr hmem vaddr hv => ?_⟩
  have halign : pageOf vaddr = vaddr := by
    obtain ⟨-, -, ha⟩ := mem_stepBy hv
    have := ha (by unfold pageOf pageSize; omega)
    unfold pageOf
    omega
  unfold AddressSpace.translate
  rw [halign, ne_eq, Option.map_eq_none_iff]
  exact hpages vaddr (List.mem_flatMap.2 ⟨phdr, hmem, hv⟩)

/-! ## The whole loader -/

/-- What is to hold of a file in one address space: no overflow and no access out of range; a file with a segment that is
too high, or with an entry or program headers at addresses that wrap, is not loaded; and no page is visited for a segment
that is too high. -/
structure SafelyLoaded (arch : Mm.Arch) (data : List Byte) (forcedBase : Option Nat) (s : AddressSpace × Machine) : Prop where
  tame : Within Failure.Tame (outcome (mapElf arch data forcedBase s))
  refused : ∀ header base, acceptHeader arch data forcedBase = .ok (header, base) →
    (∃ phdr ∈ loads data header, Excessive arch base phdr) ∨ usizeMax < base + header.entry ∨
      usizeMax < base + header.programOffset →
    ∃ e, outcome (mapElf arch data forcedBase s) = .error e
  untouched : ∀ header base, acceptHeader arch data forcedBase = .ok (header, base) → ∀ phdr ∈ loads data header,
    Excessive arch base phdr → firstPages base phdr = .ok [] ∧
      ∀ pageFlags s, ∃ message, loadSegment arch data base pageFlags phdr s = .error (.refused message) s

/-- The files that reach none of the unchecked additions with too high a value: the file is refused by its header; or no
segment comes near the end of the address space, those above the limit are empty and aligned, and neither the entry nor
the program headers wrap, unless a segment fails the checks of the second loop. -/
def Sound (arch : Mm.Arch) (data : List Byte) (forcedBase : Option Nat) : Prop :=
  ∀ header base, acceptHeader arch data forcedBase = .ok (header, base) →
    (∀ phdr ∈ loads data header, Fits base phdr ∧ (Excessive arch base phdr →
      phdr.memorySize = 0 ∧ (base + phdr.virtualAddress) % pageSize = 0)) ∧
    ((∀ phdr ∈ loads data header, ∃ x, checkSegment data base arch phdr = .ok x) →
      base + header.entry ≤ usizeMax ∧ base + header.programOffset ≤ usizeMax)

theorem stepBy_eq_nil_iff {start stop : Nat} : stepBy start stop = [] ↔ stop ≤ start := by
  unfold stepBy
  rw [List.map_eq_nil_iff, List.range_eq_nil]
  unfold pageSize
  omega

/-- A segment has no pages in the first loop. -/
theorem firstPages_eq_nil_iff [Build] (h : Fits base phdr) : firstPages base phdr = .ok [] ↔
    phdr.memorySize = 0 ∧ (base + phdr.virtualAddress) % pageSize = 0 := by
  rw [firstPages_of_fits h, Except.ok.injEq, stepBy_eq_nil_iff]
  unfold pageOf pageSize
  omega

theorem mapElf_of_ok [Build] (h : acceptHeader arch data forcedBase = .ok (header, base)) (s : AddressSpace × Machine) :
    mapElf arch data forcedBase s = loadActive arch data header base s := by
  rw [mapElf, h]
  rfl

theorem mapElf_of_error [Build] {e : Failure} (h : acceptHeader arch data forcedBase = .error e) (s : AddressSpace × Machine) :
    mapElf arch data forcedBase s = .error e s := by
  rw [mapElf, h]
  rfl

theorem loadActive_of_error [Build] {e : Failure}
    (h : collectFlags data header base (List.range header.programCount) ∅ = .error e) (s : AddressSpace × Machine) :
    loadActive arch data header base s = .error e s := by
  rw [loadActive, h]
  rfl

theorem loadActive_of_ok [Build] {flags : PageFlags}
    (h : collectFlags data header base (List.range header.programCount) ∅ = .ok flags) :
    loadActive arch data header base = (loadSegments arch data header base flags (List.range header.programCount) >>=
      fun _ => compute (auxImage data header base)) := by
  rw [loadActive, h]
  rfl

/-- A file whose segments all fit gets to the second loop. -/
theorem mapElf_of_fits (ha : acceptHeader arch data forcedBase = .ok (header, base))
    (hfits : ∀ phdr ∈ loads data header, Fits base phdr) : ∃ flags, ∀ s, mapElf arch data forcedBase s =
      (loadSegments arch data header base flags (List.range header.programCount) >>=
        fun _ => compute (auxImage data header base)) s := by
  obtain ⟨flags, hflags⟩ := (collectFlags_ok_iff ∅ (readable_of_accepted ha)).1.2 hfits
  exact ⟨flags, fun s => by rw [mapElf_of_ok ha, loadActive_of_ok hflags]⟩

/-- Some segment fails the checks, or all pass them. -/
theorem checks_cases (arch : Mm.Arch) (data : List Byte) (base : Nat) (phdrs : List ProgramHeader) :
    (∃ phdr ∈ phdrs, ∃ e, checkSegment data base arch phdr = .error e) ∨
      ∀ phdr ∈ phdrs, ∃ x, checkSegment data base arch phdr = .ok x := by
  by_cases h : ∃ phdr ∈ phdrs, ∃ e, checkSegment data base arch phdr = .error e
  · exact Or.inl h
  · refine Or.inr fun phdr hmem => ?_
    cases hx : checkSegment data base arch phdr with
    | ok x => exact ⟨x, rfl⟩
    | error e => exact absurd ⟨phdr, hmem, e, hx⟩ h

/-- The second loop gets to its end only if all segments pass the checks. -/
theorem loadSegments_checked [Build] {pageFlags : PageFlags} {is : List Nat} {s s' : AddressSpace × Machine} {u : Unit}
    (hread : Readable data header is) (h : loadSegments arch data header base pageFlags is s = .ok u s') :
    ∀ phdr ∈ loadsAt data header is, Checked arch data base phdr := by
  rcases checks_cases arch data base (loadsAt data header is) with hbad | hgood
  · obtain ⟨e, t, hfail, -⟩ := loadSegments_fails pageFlags hread hbad s trivial
    rw [hfail] at h
    cases h
  · intro phdr hphdr
    obtain ⟨x, hx⟩ := hgood phdr hphdr
    exact (checkSegment_ok hx).1

theorem safelyLoaded_of_sound (h : Sound arch data forcedBase) (s : AddressSpace × Machine) :
    SafelyLoaded arch data forcedBase s := by
  cases ha : acceptHeader arch data forcedBase with
  | error e =>
    have hcalm := acceptHeader_calm arch data forcedBase
    rw [ha] at hcalm
    refine ⟨?_, fun header base hb => ?_, fun header base hb => ?_⟩
    · rw [mapElf_of_error ha]
      exact Failure.IsError.tame hcalm
    · rw [ha] at hb
      cases hb
    · rw [ha] at hb
      cases hb
  | ok x =>
    obtain ⟨header, base⟩ := x
    obtain ⟨hfits, hwrap⟩ := h header base ha
    have hread := readable_of_accepted ha
    obtain ⟨flags, heq⟩ := mapElf_of_fits ha fun phdr hmem => (hfits phdr hmem).1
    rcases checks_cases arch data base (loads data header) with hbad | hgood
    · -- the second loop refuses the file
      obtain ⟨e, s', hfail, he, -⟩ := loadSegments_fails flags hread hbad s trivial
      have hmap : mapElf arch data forcedBase s = .error e s' := by
        rw [heq, bind_apply, hfail]
      refine ⟨by rw [hmap]; exact he, fun header' base' _ _ => ⟨e, by rw [hmap]; rfl⟩, fun header' base' hb phdr hmem hex => ?_⟩
      rw [ha] at hb
      cases hb
      refine ⟨(firstPages_eq_nil_iff (hfits phdr hmem).1).2 ((hfits phdr hmem).2 hex), fun pageFlags t => ?_⟩
      obtain ⟨message, hm⟩ := checkSegment_error hex
      exact ⟨message, loadSegment_of_error pageFlags hm t⟩
    · have hchecked : ∀ phdr ∈ loads data header, Checked arch data base phdr := fun phdr hmem => by
        obtain ⟨x, hx⟩ := hgood phdr hmem
        exact (checkSegment_ok hx).1
      have hnone : ¬ ∃ phdr ∈ loads data header, Excessive arch base phdr := by
        rintro ⟨phdr, hmem, hex⟩
        exact absurd (hchecked phdr hmem).end_le (Nat.not_le.2 hex)
      obtain ⟨aux, haux⟩ := (auxImage_ok_iff hread hchecked).1.2 (hwrap hgood)
      refine ⟨?_, fun header' base' hb hcase => ?_, fun header' base' hb phdr hmem hex => ?_⟩
      · rw [heq, haux]
        exact (Keeps.bind (loadSegments_tame flags hread) (fun _ => compute_tame (x := .ok aux) trivial) s trivial).1
      · rw [ha] at hb
        cases hb
        rcases hcase with hex | hentry | hphdr
        · exact absurd hex hnone
        · exact absurd (hwrap hgood).1 (Nat.not_le.2 hentry)
        · exact absurd (hwrap hgood).2 (Nat.not_le.2 hphdr)
      · rw [ha] at hb
        cases hb
        exact absurd ⟨phdr, hmem, hex⟩ hnone

/-- **Malformed files**: `interpreter_path` never panics, and `map_elf` deals safely with a file, in every address space,
exactly if the file reaches none of the unchecked additions with too high a value. -/
theorem mapElf_safe_iff (arch : Mm.Arch) (data : List Byte) (forcedBase : Option Nat) :
    (Within Failure.IsError (interpreterPath data) ∧ ∀ s, SafelyLoaded arch data forcedBase s) ↔
      Sound arch data forcedBase := by
  constructor
  · rintro ⟨-, hsafe⟩ header base ha
    have hread := readable_of_accepted ha
    obtain ⟨space, hspace⟩ := exists_mapped base (loads data header)
    have hs := hsafe (space, ⟨⟨.new, fun _ _ => 0, fun _ => none⟩, 0⟩)
    have hfits : ∀ phdr ∈ loads data header, Fits base phdr := by
      obtain ⟨hiff, hcases⟩ : ((∃ flags, collectFlags data header base _ ∅ = .ok flags) ↔ _) ∧ _ :=
        collectFlags_ok_iff ∅ hread
      rcases hcases with hok | herr
      · exact hiff.1 hok
      · -- the first loop would overflow
        have htame := hs.tame
        rw [mapElf_of_ok ha, loadActive_of_error herr] at htame
        exact absurd rfl htame.1
    refine ⟨fun phdr hmem => ⟨hfits phdr hmem, fun hex => ?_⟩, fun hgood => ?_⟩
    · exact (firstPages_eq_nil_iff (hfits phdr hmem)).1 (hs.untouched header base ha phdr hmem hex).1
    · have hchecked : ∀ phdr ∈ loads data header, Checked arch data base phdr := fun phdr hmem => by
        obtain ⟨x, hx⟩ := hgood phdr hmem
        exact (checkSegment_ok hx).1
      obtain ⟨flags, heq⟩ := mapElf_of_fits ha hfits
      obtain ⟨m', hload⟩ := loadSegments_reuses flags _ hread fun phdr hmem => ⟨hgood phdr hmem, hspace phdr hmem⟩
      rcases (auxImage_ok_iff hread hchecked).2 with hok | herr
      · exact (auxImage_ok_iff hread hchecked).1.1 hok
      · have htame := hs.tame
        rw [heq, bind_apply, hload, herr] at htame
        exact absurd rfl htame.1
  · exact fun h => ⟨interpreterPath_calm data, safelyLoaded_of_sound h⟩

end Segments

/-! ## A file -/

/-- The header of a file with program headers right behind it. -/
def sampleHeader (machine entry phnum : Nat) : List Byte :=
  [0x7f, 0x45, 0x4c, 0x46, 2, 1, 1] ++ List.replicate 9 0 ++ leBytes 2 3 ++ leBytes 2 machine ++ leBytes 4 1 ++
    leBytes 8 entry ++ leBytes 8 64 ++ leBytes 8 0 ++ leBytes 4 0 ++ leBytes 2 64 ++ leBytes 2 56 ++ leBytes 2 phnum ++
    leBytes 6 0

/-- An entry at the end of the address space: the addition of the load base overflows. -/
theorem entry_overflows : outcome (mapElf .riscv64 (sampleHeader 243 (2 ^ 64 - 1) 0) none
      (⟨0x1000, true, ∅⟩, ⟨freshMemory 0x9000, 0x1000⟩)) = .error .overflow ∧
    ¬ SafelyLoaded .riscv64 (sampleHeader 243 (2 ^ 64 - 1) 0) none (⟨0x1000, true, ∅⟩, ⟨freshMemory 0x9000, 0x1000⟩) := by
  have hrun : outcome (mapElf .riscv64 (sampleHeader 243 (2 ^ 64 - 1) 0) none
      (⟨0x1000, true, ∅⟩, ⟨freshMemory 0x9000, 0x1000⟩)) = .error .overflow := by
    decide +kernel
  refine ⟨hrun, fun h => ?_⟩
  have htame := h.tame
  rw [hrun] at htame
  exact htame.1 rfl

end Koros.Elf
