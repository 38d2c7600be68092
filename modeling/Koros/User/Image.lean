import Koros.Mm.Regions
import Koros.User.Reject

/-!
# The image of an ELF file

What an accepted `map_elf` leaves in a space that had none of the pages of the file.

- `collectFlags_collects`: the first loop computes for each page the union of the flags of the segments that touch it;
- `fillPage_fills`: a page holds the bytes of the segment and is otherwise as it was;
- `loadSegments_loads`: later segments do not disturb the bytes of earlier ones;
- **`mapElf_image`**: each address of a segment holds its byte of the file or zero, and each page the union of the flags.
-/
set_option autoImplicit false

namespace Koros.Elf

open Koros.Frame Koros.Mmu Koros.Lib Koros.Mm

/-! ## What the image is -/

/-- The segment touches the page: it starts before the end of the page and ends behind its start. -/
def touches (base page : Nat) (phdr : ProgramHeader) : Bool :=
  decide (page % pageSize = 0 ∧ base + phdr.virtualAddress < page + pageSize ∧
    page < base + phdr.virtualAddress + phdr.memorySize)

/-- The union of flags. -/
def unionFlags (l : List MappingFlags) : MappingFlags := ⟨l.any (·.r), l.any (·.w), l.any (·.x), l.any (·.u)⟩

/-- The flags of a page: the union over the segments that touch it. -/
def pageUnion (base : Nat) (phdrs : List ProgramHeader) (page : Nat) : MappingFlags :=
  unionFlags ((phdrs.filter (touches base page)).map segmentFlags)

/-- Byte `k` of a segment in memory. -/
def segmentByte (data : List Byte) (phdr : ProgramHeader) (k : Nat) : Byte :=
  if k < phdr.fileSize then data.getD (phdr.offset + k) 0 else 0

/-- Two segments do not overlap in memory. -/
def Apart (a b : ProgramHeader) : Prop :=
  a.virtualAddress + a.memorySize ≤ b.virtualAddress ∨ b.virtualAddress + b.memorySize ≤ a.virtualAddress

/-- The image of the segments `phdrs` in a space that was `space` before. -/
structure Image (data : List Byte) (base : Nat) (phdrs : List ProgramHeader) (space space' : AddressSpace) (s : Memory) :
    Prop where
  bytes : ∀ phdr ∈ phdrs, ∀ k < phdr.memorySize,
    space'.userByte s (base + phdr.virtualAddress + k) = some (segmentByte data phdr k)
  flags : ∀ page, (∃ phdr ∈ phdrs, touches base page phdr = true) →
    (space'.pages[page]?).map (·.flags) = some (pageUnion base phdrs page)
  others : ∀ page, (¬ ∃ phdr ∈ phdrs, touches base page phdr = true) → space'.pages[page]? = space.pages[page]?

/-! ## The first loop -/

section Flags

variable {base : Nat} {phdrs : List ProgramHeader}

/-- What is known of a page before a segment adds its flags. -/
def joinFlags (flags : MappingFlags) : Option MappingFlags → MappingFlags
  | none => flags
  | some combined => orFlags combined flags

theorem orFlags_self (a b : MappingFlags) : orFlags (orFlags a b) b = orFlags a b := by
  simp [orFlags]

theorem joinFlags_joinFlags (flags : MappingFlags) (o : Option MappingFlags) :
    joinFlags flags (some (joinFlags flags o)) = joinFlags flags o := by
  cases o with
  | none => simp [joinFlags, orFlags]
  | some combined => exact orFlags_self combined flags

theorem addFlags_get (flags : MappingFlags) (pageFlags : PageFlags) (page p : Nat) :
    (addFlags flags pageFlags page)[p]? = if p = page then some (joinFlags flags pageFlags[page]?) else pageFlags[p]? := by
  unfold addFlags
  rw [Std.TreeMap.getElem?_insert]
  by_cases hp : p = page
  · rw [if_pos hp, if_pos (Nat.compare_eq_eq.2 hp.symm)]
    rfl
  · rw [if_neg hp, if_neg fun hc => hp (Nat.compare_eq_eq.1 hc).symm]

/-- A segment adds its flags to its pages. -/
theorem foldl_addFlags_get (flags : MappingFlags) : ∀ (pages : List Nat) (pageFlags : PageFlags) (p : Nat),
    (pages.foldl (addFlags flags) pageFlags)[p]? =
      if p ∈ pages then some (joinFlags flags pageFlags[p]?) else pageFlags[p]?
  | [], pageFlags, p => by rw [if_neg List.not_mem_nil, List.foldl_nil]
  | page :: pages, pageFlags, p => by
    rw [List.foldl_cons, foldl_addFlags_get flags pages, addFlags_get]
    by_cases hp : p = page
    · subst hp
      rw [if_pos rfl, if_pos List.mem_cons_self, joinFlags_joinFlags]
      split
      · rfl
      · rfl
    · rw [if_neg hp]
      simp only [List.mem_cons, hp, false_or]

/-- The flags that the segments so far have. -/
def Collected (base : Nat) (phdrs : List ProgramHeader) (pageFlags : PageFlags) : Prop :=
  ∀ page, pageFlags[page]? = if ∃ phdr ∈ phdrs, touches base page phdr = true then some (pageUnion base phdrs page) else none

theorem mem_segmentPages_iff {phdr : ProgramHeader} {page : Nat} :
    page ∈ segmentPages base phdr ↔ touches base page phdr = true := by
  unfold segmentPages touches
  rw [decide_eq_true_iff]
  have halign : pageOf (base + phdr.virtualAddress) % pageSize = 0 := by
    unfold pageOf pageSize
    omega
  constructor
  · intro h
    obtain ⟨h₁, h₂, h₃⟩ := mem_stepBy h
    have h₃ := h₃ halign
    unfold pageOf pageSize at *
    omega
  · rintro ⟨ha, h₁, h₂⟩
    have hend : page < pageOf (base + phdr.virtualAddress + phdr.memorySize + (pageSize - 1)) := by
      unfold pageOf pageSize at *
      omega
    have h := pageOf_mem_stepBy halign (show pageOf (base + phdr.virtualAddress) ≤ page by unfold pageOf pageSize at *; omega)
      hend
    rwa [show pageOf page = page by rw [pageOf, ha, Nat.sub_zero]] at h

theorem pageUnion_append_of_touches {phdr : ProgramHeader} {page : Nat} (htouch : touches base page phdr = true) :
    pageUnion base (phdrs ++ [phdr]) page = orFlags (pageUnion base phdrs page) (segmentFlags phdr) := by
  rw [pageUnion, pageUnion, List.filter_append, List.filter_cons_of_pos htouch, List.filter_nil, List.map_append]
  simp [unionFlags, orFlags, List.any_append]

theorem pageUnion_append_of_not_touches {phdr : ProgramHeader} {page : Nat} (htouch : ¬ touches base page phdr = true) :
    pageUnion base (phdrs ++ [phdr]) page = pageUnion base phdrs page := by
  rw [pageUnion, pageUnion, List.filter_append, List.filter_cons_of_neg htouch, List.filter_nil, List.append_nil]

theorem exists_touches_append {phdr : ProgramHeader} {page : Nat} :
    (∃ q ∈ phdrs ++ [phdr], touches base page q = true) ↔
      (∃ q ∈ phdrs, touches base page q = true) ∨ touches base page phdr = true := by
  simp only [List.mem_append, List.mem_singleton, or_and_right, exists_or, exists_eq_left]

theorem Collected.add {pageFlags : PageFlags} (h : Collected base phdrs pageFlags) (phdr : ProgramHeader) :
    Collected base (phdrs ++ [phdr]) ((segmentPages base phdr).foldl (addFlags (segmentFlags phdr)) pageFlags) := by
  intro page
  rw [foldl_addFlags_get, h page]
  simp only [mem_segmentPages_iff]
  by_cases hnew : touches base page phdr = true
  · rw [if_pos hnew, if_pos (exists_touches_append.2 (Or.inr hnew)), pageUnion_append_of_touches hnew]
    split
    · rfl
    · rename_i hold
      have hnone : phdrs.filter (touches base page) = [] := by
        exact List.filter_eq_nil_iff.2 fun q hq ht => hold ⟨q, hq, ht⟩
      rw [pageUnion, hnone]
      simp [joinFlags, unionFlags, orFlags]
  · rw [if_neg hnew, pageUnion_append_of_not_touches hnew]
    refine if_congr ?_ rfl rfl
    rw [exists_touches_append, or_iff_left hnew]

variable {data : List Byte} {header : ElfHeader}

/-- **The first loop** collects the flags of all segments. -/
theorem collectFlags_collects [Build] : ∀ {is : List Nat} {phdrs : List ProgramHeader} {pageFlags flags : PageFlags},
    Readable data header is → (∀ phdr ∈ loadsAt data header is, Fits base phdr) → Collected base phdrs pageFlags →
    collectFlags data header base is pageFlags = .ok flags → Collected base (phdrs ++ loadsAt data header is) flags := by
  intro is
  induction is with
  | nil =>
    intro phdrs pageFlags flags _ _ h hrun
    cases hrun
    rw [show loadsAt data header [] = [] from rfl, List.append_nil]
    exact h
  | cons i is ih =>
    intro phdrs pageFlags flags hread hfits h hrun
    obtain ⟨phdr, hphdr⟩ := hread i List.mem_cons_self
    have hrest : Readable data header is := fun j hj => hread j (List.mem_cons_of_mem _ hj)
    rw [collectFlags, bind_of_ok hphdr] at hrun
    by_cases hl : phdr.segmentType = ptLoad
    · rw [if_neg (not_not.2 hl)] at hrun
      rw [loadsAt_cons_of_load hphdr hl] at hfits ⊢
      obtain ⟨hfits, hfitsRest⟩ := List.forall_mem_cons.1 hfits
      rw [bind_of_ok (firstPages_of_fits hfits)] at hrun
      rw [List.append_cons]
      refine ih hrest hfitsRest ?_ hrun
      have hadd := h.add phdr
      rwa [segmentPages, ← Nat.add_sub_assoc (show 1 ≤ pageSize by decide)] at hadd
    · rw [if_pos hl] at hrun
      rw [loadsAt_cons_of_other hphdr hl] at hfits ⊢
      exact ih hrest hfits h hrun

end Flags

/-! ## One page -/

section Page

variable {arch : Mm.Arch} {bound : Nat} {other : List Extent} {rest : List Nat} {space space' space'' : AddressSpace}
  {m m' m'' : Machine} {data : List Byte} {base : Nat} {phdr : ProgramHeader} {seg vaddr paddr : Nat}

/-- What the segment has in a page: where it starts there, and its bytes of the file there. -/
def fileBytes (data : List Byte) (phdr : ProgramHeader) (seg vaddr : Nat) : List Byte :=
  (data.drop (phdr.offset + (vaddr - seg))).take (inPage seg vaddr phdr.fileSize)

theorem length_fileBytes (hc : Checked arch data base phdr) :
    (fileBytes data phdr seg vaddr).length = inPage seg vaddr phdr.fileSize := by
  have hfile := hc.file_le
  have hle : inPage seg vaddr phdr.fileSize ≤ phdr.fileSize - (vaddr - seg) := Nat.min_le_left _ _
  rw [fileBytes, List.length_take, List.length_drop]
  omega

theorem fileBytes_get (hc : Checked arch data base phdr) {i : Nat} (hi : i < inPage seg vaddr phdr.fileSize) :
    (fileBytes data phdr seg vaddr)[i]? = some (data.getD (phdr.offset + (vaddr - seg) + i) 0) := by
  have hfile := hc.file_le
  have hle : inPage seg vaddr phdr.fileSize ≤ phdr.fileSize - (vaddr - seg) := Nat.min_le_left _ _
  have hlt : phdr.offset + (vaddr - seg) + i < data.length := by omega
  rw [fileBytes, List.getElem?_take_of_lt hi, List.getElem?_drop, List.getD_eq_getElem?_getD, List.getElem?_eq_getElem hlt,
    Option.getD_some]

/-- The address belongs to the segment and to the page. -/
def InWindow (phdr : ProgramHeader) (seg vaddr w : Nat) : Prop := pageOf w = vaddr ∧ seg ≤ w ∧ w < seg + phdr.memorySize

/-- The bytes of a page after it is filled. -/
def windowed (data : List Byte) (phdr : ProgramHeader) (seg vaddr : Nat) (v : Partial) : Partial :=
  let start := if inPage seg vaddr phdr.fileSize < inPage seg vaddr phdr.memorySize then
    seg - vaddr + inPage seg vaddr phdr.fileSize else 0
  let length := inPage seg vaddr phdr.memorySize - inPage seg vaddr phdr.fileSize
  overlay (overlay v (vaddr + (seg - vaddr)) (fileBytes data phdr seg vaddr)) (vaddr + start) (List.replicate length 0)

theorem windowed_of_inWindow (hc : Checked arch data base phdr) {v : Partial} {w : Nat}
    (hw : InWindow phdr seg vaddr w) : windowed data phdr seg vaddr v w = some (segmentByte data phdr (w - seg)) := by
  obtain ⟨hpage, hlo, hhi⟩ := hw
  have hsizes := hc.sizes
  have hlen : (fileBytes data phdr seg vaddr).length = inPage seg vaddr phdr.fileSize := length_fileBytes hc
  have hin : vaddr ≤ w ∧ w < vaddr + pageSize := by
    unfold pageOf at hpage
    have := Nat.mod_lt w (show 0 < pageSize by decide)
    have := Nat.mod_le w pageSize
    omega
  unfold windowed
  by_cases hfile : w - seg < phdr.fileSize
  · have hbytes : w < vaddr + (seg - vaddr) + inPage seg vaddr phdr.fileSize := by
      unfold inPage
      omega
    rw [overlay_of_outside (by rw [List.length_replicate]; split <;> omega),
      overlay_of_inside (by omega) (by rw [hlen]; exact hbytes), fileBytes_get hc (by omega), segmentByte, if_pos hfile]
    congr 2
    omega
  · have hfew : inPage seg vaddr phdr.fileSize < inPage seg vaddr phdr.memorySize := by
      unfold inPage
      omega
    have hzero : vaddr + (seg - vaddr + inPage seg vaddr phdr.fileSize) ≤ w ∧
        w < vaddr + (seg - vaddr) + inPage seg vaddr phdr.memorySize := by
      unfold inPage
      omega
    rw [if_pos hfew, overlay_of_inside hzero.1 (by rw [List.length_replicate]; omega), segmentByte, if_neg hfile,
      List.getElem?_replicate, if_pos (by omega)]

theorem windowed_of_not_inWindow (hc : Checked arch data base phdr) (ha : vaddr % pageSize = 0)
    {v : Partial} {w : Nat} (hw : ¬ InWindow phdr seg vaddr w) : windowed data phdr seg vaddr v w = v w := by
  have hsizes := hc.sizes
  have hlen : (fileBytes data phdr seg vaddr).length = inPage seg vaddr phdr.fileSize := length_fileBytes hc
  have hout : w < vaddr + (seg - vaddr) ∨ vaddr + (seg - vaddr) + inPage seg vaddr phdr.memorySize ≤ w := by
    by_contra hno
    refine hw ?_
    unfold InWindow inPage pageOf at *
    unfold pageSize at *
    omega
  have hle : inPage seg vaddr phdr.fileSize ≤ inPage seg vaddr phdr.memorySize := by
    unfold inPage
    omega
  unfold windowed
  rw [overlay_of_outside, overlay_of_outside]
  · rw [hlen]
    omega
  · rw [List.length_replicate]
    split <;> omega

/-- **A page is filled**: its bytes are those of the window. -/
theorem filledPage_stays (hf : Fenced arch bound other rest m.mem space) (hc : Checked arch data base phdr)
    (ha : vaddr % pageSize = 0) (hv : pageOf seg ≤ vaddr) (ht : space.translate vaddr = some paddr) :
    Stays arch bound other rest space m space { m with mem := filledPage data phdr seg vaddr paddr m.mem } ∧
      space.userByte (filledPage data phdr seg vaddr paddr m.mem) = windowed data phdr seg vaddr (space.userByte m.mem) := by
  have hstart := start_lt_pageSize hv
  have hfile : inPage seg vaddr phdr.fileSize ≤ pageSize - (seg - vaddr) := Nat.min_le_right _ _
  have hmem : inPage seg vaddr phdr.memorySize ≤ pageSize - (seg - vaddr) := Nat.min_le_right _ _
  have hlen : (fileBytes data phdr seg vaddr).length = inPage seg vaddr phdr.fileSize := length_fileBytes hc
  have hmod : ∀ k < pageSize, (vaddr + k) % pageSize = k := by
    intro k hk
    unfold pageSize at *
    omega
  have hbyte : ∀ k < pageSize, space.translate (vaddr + k) = some (paddr + k) := fun k hk =>
    AddressSpace.translate_add ht (by rw [ha, Nat.zero_add]; exact hk)
  obtain ⟨h₁, hb₁⟩ := copyTo_stays (fileBytes data phdr seg vaddr) hf (hbyte _ hstart)
    (by rw [hmod _ hstart, hlen]; omega)
  unfold filledPage windowed
  by_cases hfew : inPage seg vaddr phdr.fileSize < inPage seg vaddr phdr.memorySize
  · simp only [if_pos hfew]
    have hoff : seg - vaddr + inPage seg vaddr phdr.fileSize < pageSize := by omega
    obtain ⟨h₂, hb₂⟩ := copyTo_stays (List.replicate (inPage seg vaddr phdr.memorySize - inPage seg vaddr phdr.fileSize) 0)
      h₁.fenced (hbyte _ hoff) (by rw [hmod _ hoff, List.length_replicate]; omega)
    refine ⟨h₁.trans h₂, ?_⟩
    rw [← hb₁]
    exact hb₂
  · have hzero : inPage seg vaddr phdr.memorySize - inPage seg vaddr phdr.fileSize = 0 := by omega
    simp only [if_neg hfew, hzero, List.replicate_zero, copyTo, overlay_nil]
    exact ⟨h₁, hb₁⟩

/-- What filling some pages of a segment does: it maps those that are not there, with the flags of `pageFlags`, and changes
only the bytes of the segment in them. -/
structure Fills (arch : Mm.Arch) (bound : Nat) (other : List Extent) (rest : List Nat) (data : List Byte)
    (pageFlags : Nat → MappingFlags) (phdr : ProgramHeader) (seg : Nat) (pages : List Nat) (space : AddressSpace) (m : Machine)
    (space' : AddressSpace) (m' : Machine) : Prop where
  stays : Stays arch bound other rest space m space' m'
  kept : ∀ page : Nat, space.pages[page]? ≠ none → space'.pages[page]? = space.pages[page]?
  mapped : ∀ page : Nat, space.pages[page]? = none →
    (space'.pages[page]?).map (·.flags) = if page ∈ pages then some (pageFlags page) else none
  bytes : ∀ w, pageOf w ∈ pages → seg ≤ w → w < seg + phdr.memorySize →
    space'.userByte m'.mem w = some (segmentByte data phdr (w - seg))
  same : ∀ w, space.pages[pageOf w]? ≠ none → ¬ (pageOf w ∈ pages ∧ seg ≤ w ∧ w < seg + phdr.memorySize) →
    space'.userByte m'.mem w = space.userByte m.mem w

variable {pageFlags : PageFlags} {flags : Nat → MappingFlags}

theorem Fills.nil (hf : Fenced arch bound other rest m.mem space) :
    Fills arch bound other rest data flags phdr seg [] space m space m where
  stays := Stays.refl hf
  kept _ _ := rfl
  mapped page hnone := by
    rw [hnone, if_neg List.not_mem_nil]
    rfl
  bytes w hw := absurd hw List.not_mem_nil
  same _ _ _ := rfl

/-- One page and then others. -/
theorem Fills.cons {pages : List Nat} (h₁ : Fills arch bound other rest data flags phdr seg [vaddr] space m space' m')
    (h₂ : Fills arch bound other rest data flags phdr seg pages space' m' space'' m'') :
    Fills arch bound other rest data flags phdr seg (vaddr :: pages) space m space'' m'' := by
  have hkeep : ∀ page : Nat, space.pages[page]? ≠ none → space'.pages[page]? ≠ none := fun page hp => by
    rw [h₁.kept page hp]
    exact hp
  have hthere : space'.pages[vaddr]? ≠ none := by
    intro hnone
    by_cases hold : space.pages[vaddr]? = none
    · have := h₁.mapped vaddr hold
      rw [hnone, if_pos List.mem_cons_self] at this
      cases this
    · exact hkeep vaddr hold hnone
  refine ⟨h₁.stays.trans h₂.stays, fun page hp => ?_, fun page hnone => ?_, fun w hw hlo hhi => ?_, fun w hp hw => ?_⟩
  · rw [h₂.kept page (hkeep page hp), h₁.kept page hp]
  · by_cases hpage : page = vaddr
    · subst hpage
      rw [h₂.kept page hthere, h₁.mapped page hnone, if_pos List.mem_cons_self, if_pos List.mem_cons_self]
    · have hstill : space'.pages[page]? = none := by
        have := h₁.mapped page hnone
        rw [if_neg (by rwa [List.mem_singleton])] at this
        exact Option.map_eq_none_iff.1 this
      rw [h₂.mapped page hstill]
      simp only [List.mem_cons, hpage, false_or]
  · by_cases hin : pageOf w ∈ pages
    · exact h₂.bytes w hin hlo hhi
    · have hfirst : pageOf w = vaddr := (List.mem_cons.1 hw).resolve_right hin
      rw [h₂.same w (by rw [hfirst]; exact hthere) fun h => hin h.1]
      exact h₁.bytes w (List.mem_singleton.2 hfirst) hlo hhi
  · rw [h₂.same w (hkeep _ hp) fun h => hw ⟨List.mem_cons_of_mem _ h.1, h.2⟩]
    exact h₁.same w hp fun h => hw ⟨List.mem_cons.2 (Or.inl (List.mem_singleton.1 h.1)), h.2⟩

theorem pageOf_eq_of_aligned (ha : vaddr % pageSize = 0) : pageOf vaddr = vaddr := by
  rw [pageOf, ha, Nat.sub_zero]

theorem translate_eq_none_iff : space.translate vaddr = none ↔ space.pages[pageOf vaddr]? = none := by
  rw [AddressSpace.translate, Option.map_eq_none_iff]

/-- **One page** of a segment. -/
theorem fillPage_fills [Build] (hb : bound ≤ 2 ^ 36) (hf : Fenced arch bound other rest m.mem space)
    (hc : Checked arch data base phdr) (ha : vaddr % pageSize = 0) (hv : pageOf seg ≤ vaddr)
    (hflags : flags vaddr = (pageFlags[vaddr]?).getD (segmentFlags phdr))
    (hrun : fillPage arch data pageFlags phdr seg vaddr (space, m) = .ok () (space', m')) :
    Fills arch bound other rest data flags phdr seg [vaddr] space m space' m' := by
  have hpage := pageOf_eq_of_aligned ha
  rw [fillPage_eq pageFlags hc hv] at hrun
  -- the filled page, in a space where it is mapped
  have hfill : ∀ {sp : AddressSpace} {mm : Machine} {p : Nat}, Fenced arch bound other rest mm.mem sp →
      sp.translate vaddr = some p →
      Fills arch bound other rest data flags phdr seg [vaddr] sp mm sp
        { mm with mem := filledPage data phdr seg vaddr p mm.mem } := by
    intro sp mm p hfsp ht
    obtain ⟨hst, hbytes⟩ := filledPage_stays hfsp hc ha hv ht
    have hthere : sp.pages[vaddr]? ≠ none := by
      intro hnone
      have := translate_eq_none_iff.2 (by rw [hpage]; exact hnone)
      rw [ht] at this
      cases this
    refine ⟨hst, fun _ _ => rfl, fun page hnone => ?_, fun w hw hlo hhi => ?_, fun w _ hw => ?_⟩
    · have hne : page ∉ [vaddr] := fun hmem => hthere (List.mem_singleton.1 hmem ▸ hnone)
      rw [if_neg hne, hnone]
      rfl
    · rw [hbytes]
      exact windowed_of_inWindow hc ⟨List.mem_singleton.1 hw, hlo, hhi⟩
    · rw [hbytes]
      exact windowed_of_not_inWindow hc ha fun h => hw ⟨List.mem_singleton.2 h.1, h.2⟩
  cases ht : space.translate vaddr with
  | some p =>
    rw [framePage_of_some ht] at hrun
    cases hrun
    exact hfill hf ht
  | none =>
    have hframe : framePage arch vaddr ((pageFlags[vaddr]?).getD (segmentFlags phdr)) (space, m) =
        mapPage arch vaddr ((pageFlags[vaddr]?).getD (segmentFlags phdr)) (space, m) := by
      rw [framePage_eq, ht]
    rw [hframe, ← hflags, mapPage] at hrun
    cases hmap : space.mapZeroed arch m vaddr (flags vaddr) with
    | none =>
      rw [hmap] at hrun
      cases hrun
    | some x =>
      obtain ⟨r, sp, mm⟩ := x
      rw [hmap] at hrun
      cases r with
      | error e => cases hrun
      | ok p =>
        cases hrun
        have hst := (mapZeroed_stays hb hf hmap).1
        obtain ⟨-, hnone, htrans, hpages, hbytes⟩ := mapZeroed_bytes hb hf hmap
        have hget : ∀ w : Nat, space'.pages[w]? = if w = vaddr then some ⟨p, flags vaddr⟩ else space.pages[w]? := by
          intro w
          rw [hpages, Std.TreeMap.getElem?_insert]
          by_cases hw : w = vaddr
          · rw [if_pos hw, if_pos (Nat.compare_eq_eq.2 hw.symm)]
          · rw [if_neg hw, if_neg fun hcmp => hw (Nat.compare_eq_eq.1 hcmp).symm]
        have hthen := hfill hst.fenced htrans
        refine ⟨hst.trans hthen.stays, fun page hp => ?_, fun page hold => ?_, hthen.bytes, fun w hp hw => ?_⟩
        · rw [hget, if_neg (by rintro rfl; exact hp hnone)]
        · rw [hget]
          by_cases hpv : page = vaddr
          · rw [if_pos hpv, if_pos (List.mem_singleton.2 hpv), hpv]
            rfl
          · rw [if_neg hpv, if_neg (by rwa [List.mem_singleton]), hold]
            rfl
        · have hne : pageOf w ≠ vaddr := fun h => hp (h ▸ hnone)
          have hthere : space'.pages[pageOf w]? ≠ none := by
            rw [hget, if_neg hne]
            exact hp
          rw [hthen.same w hthere hw, hbytes w, if_neg hne]

theorem fillPages_fills [Build] (hb : bound ≤ 2 ^ 36) (hc : Checked arch data base phdr) :
    ∀ {pages : List Nat} {space : AddressSpace} {m : Machine}, Fenced arch bound other rest m.mem space →
    (∀ vaddr ∈ pages, vaddr % pageSize = 0 ∧ pageOf seg ≤ vaddr ∧
      flags vaddr = (pageFlags[vaddr]?).getD (segmentFlags phdr)) →
    pages.forM (fillPage arch data pageFlags phdr seg) (space, m) = .ok () (space', m') →
    Fills arch bound other rest data flags phdr seg pages space m space' m' := by
  intro pages
  induction pages with
  | nil =>
    intro space m hf _ hrun
    cases hrun
    exact Fills.nil hf
  | cons vaddr pages ih =>
    intro space m hf hall hrun
    rw [List.forall_mem_cons] at hall
    obtain ⟨⟨ha, hv, hflags⟩, hall⟩ := hall
    have hrun : (fillPage arch data pageFlags phdr seg vaddr >>= fun _ =>
      pages.forM (fillPage arch data pageFlags phdr seg)) (space, m) = .ok () (space', m') := hrun
    rw [bind_apply] at hrun
    cases hfirst : fillPage arch data pageFlags phdr seg vaddr (space, m) with
    | error e s =>
      rw [hfirst] at hrun
      cases hrun
    | ok u s =>
      obtain ⟨sp, mm⟩ := s
      rw [hfirst] at hrun
      have h₁ := fillPage_fills hb hf hc ha hv hflags hfirst
      exact h₁.cons (ih h₁.stays.fenced hall hrun)

end Page

/-! ## The second loop -/

section Loop

variable {arch : Mm.Arch} {bound : Nat} {other : List Extent} {rest : List Nat} {space₀ space space' : AddressSpace}
  {m₀ m m' : Machine} {data : List Byte} {header : ElfHeader} {base : Nat} {phdr : ProgramHeader} {pageFlags : PageFlags}
  {flags : Nat → MappingFlags} {phdrs : List ProgramHeader}

/-- The segments `phdrs` are loaded; the pages have the flags of the whole file. -/
structure Loaded (arch : Mm.Arch) (bound : Nat) (other : List Extent) (rest : List Nat) (data : List Byte) (base : Nat)
    (flags : Nat → MappingFlags) (phdrs : List ProgramHeader) (space₀ : AddressSpace) (m₀ : Machine) (space : AddressSpace)
    (m : Machine) : Prop where
  stays : Stays arch bound other rest space₀ m₀ space m
  bytes : ∀ phdr ∈ phdrs, ∀ k < phdr.memorySize,
    space.userByte m.mem (base + phdr.virtualAddress + k) = some (segmentByte data phdr k)
  mapped : ∀ page, (∃ phdr ∈ phdrs, touches base page phdr = true) → (space.pages[page]?).map (·.flags) = some (flags page)
  others : ∀ page, (¬ ∃ phdr ∈ phdrs, touches base page phdr = true) → space.pages[page]? = space₀.pages[page]?

/-- The page of an address of a segment. -/
theorem touches_pageOf {k : Nat} (hk : k < phdr.memorySize) :
    touches base (pageOf (base + phdr.virtualAddress + k)) phdr = true := by
  refine decide_eq_true ?_
  unfold pageOf pageSize
  omega

/-- **One more segment**, apart from those before it. -/
theorem Loaded.add (h : Loaded arch bound other rest data base flags phdrs space₀ m₀ space m)
    (hnone : ∀ page, touches base page phdr = true → space₀.pages[page]? = none)
    (hapart : ∀ q ∈ phdrs, Apart q phdr)
    (hfill : Fills arch bound other rest data flags phdr (base + phdr.virtualAddress) (segmentPages base phdr) space m
      space' m') : Loaded arch bound other rest data base flags (phdrs ++ [phdr]) space₀ m₀ space' m' := by
  have hthere : ∀ page, (∃ q ∈ phdrs, touches base page q = true) → space.pages[page]? ≠ none := by
    intro page hq hno
    have := h.mapped page hq
    rw [hno] at this
    cases this
  refine ⟨h.stays.trans hfill.stays, fun q hq k hk => ?_, fun page hpage => ?_, fun page hpage => ?_⟩
  · rcases List.mem_append.1 hq with hq | hq
    · have hout : ¬ (pageOf (base + q.virtualAddress + k) ∈ segmentPages base phdr ∧
          base + phdr.virtualAddress ≤ base + q.virtualAddress + k ∧
          base + q.virtualAddress + k < base + phdr.virtualAddress + phdr.memorySize) := by
        have := hapart q hq
        unfold Apart at this
        omega
      rw [hfill.same _ (hthere _ ⟨q, hq, touches_pageOf hk⟩) hout]
      exact h.bytes q hq k hk
    · obtain rfl := List.mem_singleton.1 hq
      rw [hfill.bytes _ (mem_segmentPages_iff.2 (touches_pageOf hk)) (Nat.le_add_right _ _) (by omega),
        Nat.add_sub_cancel_left]
  · by_cases hold : ∃ q ∈ phdrs, touches base page q = true
    · rw [hfill.kept page (hthere page hold)]
      exact h.mapped page hold
    · have hnew := (exists_touches_append.1 hpage).resolve_left hold
      have hfree : space.pages[page]? = none := by rw [h.others page hold, hnone page hnew]
      rw [hfill.mapped page hfree, if_pos (mem_segmentPages_iff.2 hnew)]
  · rw [exists_touches_append, not_or] at hpage
    obtain ⟨hold, hnew⟩ := hpage
    rw [← h.others page hold]
    by_cases hfree : space.pages[page]? = none
    · have hstill := hfill.mapped page hfree
      rw [if_neg fun hin => hnew (mem_segmentPages_iff.1 hin)] at hstill
      rw [hfree]
      exact Option.map_eq_none_iff.1 hstill
    · exact hfill.kept page hfree

/-- **The second loop** loads all segments. -/
theorem loadSegments_loads [Build] (hb : bound ≤ 2 ^ 36) : ∀ {is : List Nat} {phdrs : List ProgramHeader} {space : AddressSpace}
    {m : Machine}, Readable data header is → Loaded arch bound other rest data base flags phdrs space₀ m₀ space m →
    (∀ phdr ∈ loadsAt data header is, ∀ page, touches base page phdr = true → 
      space₀.pages[page]? = none ∧ pageFlags[page]? = some (flags page)) →
    (phdrs ++ loadsAt data header is).Pairwise Apart →
    loadSegments arch data header base pageFlags is (space, m) = .ok () (space', m') →
    Loaded arch bound other rest data base flags (phdrs ++ loadsAt data header is) space₀ m₀ space' m' := by
  intro is
  induction is with
  | nil =>
    intro phdrs space m _ h _ _ hrun
    cases hrun
    rw [show loadsAt data header [] = [] from rfl, List.append_nil]
    exact h
  | cons i is ih =>
    intro phdrs space m hread h hall hapart hrun
    obtain ⟨phdr, hphdr⟩ := hread i List.mem_cons_self
    have hrest : Readable data header is := fun j hj => hread j (List.mem_cons_of_mem _ hj)
    rw [loadSegments_cons pageFlags hphdr] at hrun
    by_cases hl : phdr.segmentType = ptLoad
    · rw [if_pos hl, bind_apply] at hrun
      rw [loadsAt_cons_of_load hphdr hl] at hall hapart ⊢
      rw [List.forall_mem_cons] at hall
      obtain ⟨hpages, hall⟩ := hall
      rw [List.append_cons] at hapart ⊢
      cases hseg : loadSegment arch data base pageFlags phdr (space, m) with
      | error e s =>
        rw [hseg] at hrun
        cases hrun
      | ok u s =>
        obtain ⟨sp, mm⟩ := s
        rw [hseg] at hrun
        refine ih hrest ?_ hall hapart hrun
        -- the segment passed its checks, and its pages were filled one after the other
        cases hcheck : checkSegment data base arch phdr with
        | error e =>
          rw [loadSegment_of_error pageFlags hcheck] at hseg
          cases hseg
        | ok x =>
          obtain ⟨hc, rfl⟩ := checkSegment_ok hcheck
          rw [loadSegment_of_ok pageFlags hcheck] at hseg
          refine h.add (fun page ht => (hpages page ht).1) (fun q hq => ?_) (fillPages_fills hb hc h.stays.fenced
            (fun vaddr hv => ?_) hseg)
          · exact (List.pairwise_append.1 (List.pairwise_append.1 hapart).1).2.2 q hq phdr List.mem_cons_self
          · have htouch := mem_segmentPages_iff.1 hv
            refine ⟨(of_decide_eq_true htouch).1, (mem_stepBy hv).1, ?_⟩
            rw [(hpages vaddr htouch).2, Option.getD_some]
    · rw [if_neg hl] at hrun
      rw [loadsAt_cons_of_other hphdr hl] at hall hapart ⊢
      exact ih hrest h hall hapart hrun

end Loop

/-! ## The whole file -/

/-- **The image of an accepted file**: in either build, at every load base, in a space where none of its pages is mapped, its
segments being apart from each other. -/
theorem mapElf_image [Build] {arch : Mm.Arch} {bound : Nat} (hb : bound ≤ 2 ^ 36) {other : List Extent} {rest : List Nat}
    {space space' : AddressSpace} {m m' : Machine} (hf : Fenced arch bound other rest m.mem space) {data : List Byte}
    {forcedBase : Option Nat} {header : ElfHeader} {base : Nat} {aux : AuxImage}
    (haccept : acceptHeader arch data forcedBase = .ok (header, base))
    (hnew : ∀ phdr ∈ loads data header, ∀ page, touches base page phdr = true → space.pages[page]? = none)
    (hapart : (loads data header).Pairwise Apart)
    (hrun : mapElf arch data forcedBase (space, m) = .ok aux (space', m')) :
    Image data base (loads data header) space space' m'.mem ∧ Fenced arch bound other rest m'.mem space' := by
  have hread := readable_of_accepted haccept
  rw [mapElf_of_ok haccept] at hrun
  cases hcollect : collectFlags data header base (List.range header.programCount) ∅ with
  | error e =>
    rw [loadActive_of_error hcollect] at hrun
    cases hrun
  | ok pageFlags =>
    rw [loadActive_of_ok hcollect, bind_apply] at hrun
    cases hload : loadSegments arch data header base pageFlags (List.range header.programCount) (space, m) with
    | error e s =>
      rw [hload] at hrun
      cases hrun
    | ok u s =>
      obtain ⟨sp, mm⟩ := s
      rw [hload] at hrun
      -- the second loop found no segment that the first one could have wrapped around
      have hchecked : ∀ phdr ∈ loads data header, Checked arch data base phdr := loadSegments_checked hread hload
      have hempty : Collected base [] ∅ := fun page => by simp
      have hflags := collectFlags_collects hread (fun phdr hphdr => (hchecked phdr hphdr).fits) hempty hcollect
      rw [List.nil_append] at hflags
      have hstart : Loaded arch bound other rest data base (pageUnion base (loads data header)) [] space m space m :=
        ⟨Stays.refl hf, nofun, fun page hpage => absurd hpage (by simp), fun _ _ => rfl⟩
      have hloaded := loadSegments_loads hb hread hstart (fun phdr hphdr page ht =>
        ⟨hnew phdr hphdr page ht, (hflags page).trans (if_pos ⟨phdr, hphdr, ht⟩)⟩) hapart hload
      rw [List.nil_append] at hloaded
      obtain ⟨rfl, rfl⟩ : sp = space' ∧ mm = m' := by
        revert hrun
        cases auxImage data header base with
        | error e => exact fun h => nomatch h
        | ok a =>
          intro h
          cases h
          exact ⟨rfl, rfl⟩
      exact ⟨⟨hloaded.bytes, hloaded.mapped, hloaded.others⟩, hloaded.stays.fenced⟩

/-- A loadable segment. -/
def sampleSegment (phdr : ProgramHeader) : List Byte :=
  leBytes 4 ptLoad ++ leBytes 4 phdr.flags ++ leBytes 8 phdr.offset ++ leBytes 8 phdr.virtualAddress ++ leBytes 8 0 ++
    leBytes 8 phdr.fileSize ++ leBytes 8 phdr.memorySize ++ leBytes 8 0

/-- Code of two bytes with room for four. -/
def sampleCode : ProgramHeader := ⟨ptLoad, 5, 176, 0x10, 2, 4⟩

/-- Data of one byte with room for three, in the same page. -/
def sampleData : ProgramHeader := ⟨ptLoad, 6, 178, 0x20, 1, 3⟩

/-- A file whose entry wraps around. -/
def twoSegments : List Byte :=
  sampleHeader 243 (2 ^ 64 - 1) 2 ++ sampleSegment sampleCode ++ sampleSegment sampleData ++ [0xaa, 0xbb, 0xcc]

/-- Its header, as it is read. -/
def twoHeader : ElfHeader := ⟨[0x7f, 0x45, 0x4c, 0x46, 2, 1, 1] ++ List.replicate 9 0, 3, 243, 2 ^ 64 - 1, 64, 64, 56, 2⟩

section Release

attribute [local instance] releaseBuild

/-- The file in an empty space on riscv64, in the release build: the page is shared and has the flags of both segments. -/
theorem mapElf_image_twoSegments : ∃ space m aux space' m',
    AddressSpace.empty ⟨freshMemory 0x9000, 0⟩ = some (.ok space, m) ∧
      mapElf .riscv64 twoSegments none (space, m) = .ok aux (space', m') ∧
      space'.userByte m'.mem 0x10011 = some 0xbb ∧ space'.userByte m'.mem 0x10012 = some 0 ∧
      space'.userByte m'.mem 0x10020 = some 0xcc ∧
      (space'.pages[0x10000]?).map (·.flags) = some ⟨true, true, true, true⟩ := by
  have hpool : Pool maxDescriptors (freshMemory 0x9000).frames [] [] :=
    ⟨(Reach.add .new (by decide) (by decide)
      (show FrameAllocator.addRegion .new 0x1000 0x9000 = some (freshMemory 0x9000).frames from rfl)).inv, by decide⟩
  have hruns : ((AddressSpace.empty ⟨freshMemory 0x9000, 0⟩).map fun x => x.1.toOption.map fun space =>
      (outcome (mapElf .riscv64 twoSegments none (space, x.2))).toOption.isSome) = some (some true) := by decide +kernel
  obtain ⟨⟨r, m⟩, hempty, hruns⟩ := Option.map_eq_some_iff.1 hruns
  obtain ⟨-, -, ⟨root, rfl, hf⟩ | ⟨⟨e, rfl⟩, -⟩⟩ := empty_fenced (by decide)
    (m := ⟨freshMemory 0x9000, 0⟩) hpool (show UpperEmpty .riscv64 _ from fun _ _ _ => rfl) hempty
  swap
  · cases hruns
  cases hrun : mapElf .riscv64 twoSegments none (⟨root, true, ∅⟩, m) with
  | error e s =>
    simp only [Except.toOption, Option.map_some, hrun, outcome] at hruns
    cases hruns
  | ok aux s =>
    obtain ⟨space', m'⟩ := s
    have haccept : acceptHeader .riscv64 twoSegments none = .ok (twoHeader, 0x10000) := by decide +kernel
    have hloads : loads twoSegments twoHeader = [sampleCode, sampleData] := by decide +kernel
    obtain ⟨himage, -⟩ := mapElf_image (by decide) hf haccept (fun _ _ _ _ => by simp)
      (by rw [hloads]; simp [Apart, sampleCode, sampleData]) hrun
    rw [hloads] at himage
    have hcode := himage.bytes sampleCode List.mem_cons_self
    have hdata := himage.bytes sampleData (List.mem_cons_of_mem _ List.mem_cons_self)
    have hflags := himage.flags 0x10000 ⟨sampleCode, List.mem_cons_self, by decide +kernel⟩
    exact ⟨_, m, aux, space', m', hempty, hrun, hcode 1 (by decide), hcode 2 (by decide), hdata 0 (by decide), hflags⟩

end Release

end Koros.Elf
