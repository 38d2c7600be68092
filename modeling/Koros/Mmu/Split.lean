import Koros.Mmu.Map

/-!
# Splitting a large leaf

`split_leaf` decodes a leaf and encodes 512 leaves of the next level. `access` is what the hardware makes of an address:
where it leads and what it may be used for, with the bits that each architecture reads.

- `split_iff`: a split leaf gives every address of its region the access it had exactly when the architecture is not
  riscv64, or the leaf is a 2 MiB one of user memory;
- `split_opens_kernel`: a kernel page of riscv64 becomes user memory.

On riscv64 `mapping_flags` reports every leaf as user memory, and the address of a 2 MiB leaf loses bit 21.
-/
set_option autoImplicit false

namespace Koros.Mmu

open Koros.Frame

inductive Arch where
  | riscv64
  | x86_64
  | aarch64
deriving DecidableEq, Repr

namespace MappingFlags

/-- What both allow. -/
def inter (f g : MappingFlags) : MappingFlags := ⟨f.r && g.r, f.w && g.w, f.x && g.x, f.u && g.u⟩

def all : MappingFlags := ⟨true, true, true, true⟩

@[simp] theorem inter_all (f : MappingFlags) : f.inter all = f := by
  simp [inter, all]

@[simp] theorem all_inter (f : MappingFlags) : all.inter f = f := by
  simp [inter, all]

end MappingFlags

/-- `MappingFlags::KERNEL_RWX`. -/
def kernelRwx : MappingFlags := ⟨true, true, true, false⟩

namespace Arch

def format : Arch → PteFormat
  | riscv64 => Mmu.riscv64
  | x86_64 => Mmu.x86_64
  | aarch64 => Mmu.aarch64

/-- What the hardware reads in a leaf. -/
def leafRights : Arch → (entry : Nat) → MappingFlags
  | riscv64, entry => ⟨entry &&& 2 ≠ 0, entry &&& 4 ≠ 0, entry &&& 8 ≠ 0, entry &&& 16 ≠ 0⟩
  | x86_64, entry => X86.entryFlags entry
  | aarch64, entry => Aarch64.entryFlags entry

/-- What an entry for a table leaves to the leaves below: on x86_64 the `RW` and `US` bits of all levels count. -/
def tableRights : Arch → (entry : Nat) → MappingFlags
  | x86_64, entry => X86.entryFlags entry
  | _, _ => .all

/-- The level of the leaves of the boot tables. -/
def bootLevel : Arch → Nat
  | x86_64 => 1
  | _ => 2

/-- Leaf `i` of the boot tables: `boot_table_identity_high`, the `Page2MTable` macro and `boot_table_identity_512g`. -/
def bootLeaf : Arch → (i : Nat) → Nat
  | riscv64, i => Riscv64.leafPte (i <<< 30) kernelRwx
  | x86_64, i => i * 0x200000 + 0x83
  | aarch64, i => Aarch64.blockPte (i <<< 30) kernelRwx

theorem format_mem (H : Arch) : H.format ∈ architectures := by
  cases H <;> simp [format, architectures]

/-- The leaves of the boot tables are leaves as the engine encodes them, of frames aligned to their size. -/
theorem bootLeaf_eq (H : Arch) (i : Nat) :
    H.bootLeaf i = H.format.leafEntry (i * span H.bootLevel) kernelRwx H.bootLevel := by
  have h1 : span 1 = 0x200000 := by decide
  have h2 : span 2 = 2 ^ 30 := by decide
  cases H with
  | riscv64 => simp [bootLevel, bootLeaf, format, Mmu.riscv64, h2, Nat.shiftLeft_eq]
  | aarch64 => simp [bootLevel, bootLeaf, format, Mmu.aarch64, h2, Nat.shiftLeft_eq]
  | x86_64 =>
    have hor : i * 2 ^ 21 + 0x83 = i * 2 ^ 21 ||| 0x83 := by
      rw [← Nat.shiftLeft_eq]
      exact Nat.shiftLeft_add_eq_or_of_lt (by decide) i
    have hflags : X86.hwFlags kernelRwx ||| 128 = 0x83 := by decide
    simp only [bootLevel, bootLeaf, format, Mmu.x86_64, h1, X86.leafPte2m, Nat.or_assoc, Nat.one_ne_zero, if_false, hflags]
    exact hor

end Arch

/-! ## Access -/

section Access

variable (H : Arch)

/-- What a leaf makes of `a`, below tables that leave `b`. -/
def leafAccess (a level entry : Nat) (b : MappingFlags) : Option (Nat × MappingFlags) :=
  if H.format.entryPresent entry then some (H.format.entryPhys entry level + a % span level, b.inter (H.leafRights entry))
  else none

/-- What the hardware makes of `a` from a table page on. -/
def accessAt (s : Memory) (a : Nat) : (level page : Nat) → MappingFlags → Option (Nat × MappingFlags)
  | 0, page, b => leafAccess H a 0 (s.mem page (tableIndex a 0)) b
  | level + 1, page, b =>
    let entry := s.mem page (tableIndex a (level + 1))
    if H.format.entryPresent entry && !H.format.entryIsLeaf entry (level + 1) then
      accessAt s a level (H.format.entryPhys entry (level + 1)) (b.inter (H.tableRights entry))
    else leafAccess H a (level + 1) entry b

/-- Where `a` leads and what it may be used for. -/
def access (s : Memory) (root a : Nat) : Option (Nat × MappingFlags) := accessAt H s a H.format.top root .all

variable {H} {s : Memory} {K : Nat → Option Kind} {root half a : Nat} {b : MappingFlags}

theorem accessAt_of_points {page l c : Nat} (hp : Points H.format s page (l + 1) (tableIndex a (l + 1)) c) :
    accessAt H s a (l + 1) page b = accessAt H s a l c (b.inter (H.tableRights (s.mem page (tableIndex a (l + 1))))) := by
  simp [accessAt, hp.present, hp.not_leaf, hp.phys]

theorem accessAt_of_leaf {page l : Nat} (hlf : H.format.entryIsLeaf (s.mem page (tableIndex a l)) l = true) :
    accessAt H s a l page b = leafAccess H a l (s.mem page (tableIndex a l)) b := by
  cases l with
  | zero => rfl
  | succ l => simp [accessAt, hlf]

/-- The tables above a page matter only by what they leave to it. -/
theorem exists_accessAt (h : Typed H.format s K) (hroot : K root = some ⟨H.format.top, half⟩) : ∀ {n page : Nat},
    n ≤ H.format.top → tableAt H.format s root a n = some page →
    ∃ b, ((∀ e, H.tableRights e = .all) → b = .all) ∧ ∀ t : Memory,
      (∀ f k, K f = some k → H.format.top - n < k.level → t.mem f = s.mem f) →
      access H t root a = accessAt H t a (H.format.top - n) page b
  | 0, page, _, hat => by
    cases hat
    exact ⟨.all, fun _ => rfl, fun _ _ => rfl⟩
  | n + 1, page, hn, hat => by
    obtain ⟨parent, hparent, hp⟩ := points_of_tableAt hat
    obtain ⟨half', hk⟩ := h.tableAt_kind hroot (Nat.le_of_succ_le hn) hparent
    obtain ⟨b, hb, hpath⟩ := exists_accessAt h hroot (Nat.le_of_succ_le hn) hparent
    refine ⟨b.inter (H.tableRights (s.mem parent (tableIndex a (H.format.top - n)))), fun hall => ?_, fun t ht => ?_⟩
    · rw [hall, hb hall]
      rfl
    · rw [hpath t fun f k hf hlt => ht f k hf (by omega)]
      have hsame := ht parent _ hk (by show _ < H.format.top - n; omega)
      have hl : H.format.top - n = H.format.top - (n + 1) + 1 := by omega
      rw [hl] at hp ⊢
      have hp' : Points H.format t parent (H.format.top - (n + 1) + 1)
          (tableIndex a (H.format.top - (n + 1) + 1)) page :=
        ⟨hp.lt, by rw [hsame]; exact hp.present, by rw [hsame]; exact hp.not_leaf, by rw [hsame]; exact hp.phys⟩
      rw [accessAt_of_points hp', hsame]

end Access

/-! ## The entries of a split leaf -/

/-- The leaves that take the place of `entry` lead where it led and allow what it allowed. -/
def Kept (H : Arch) (entry l : Nat) : Prop :=
  ∀ j < 512, H.format.entryPhys (fillerOf H.format entry l j) l = H.format.entryPhys entry (l + 1) + j * span l ∧
    H.leafRights (fillerOf H.format entry l j) = H.leafRights entry

section Entries

variable {phys l : Nat} {flags : MappingFlags}

theorem span_two_pow (l : Nat) : span l = 2 ^ (12 + 9 * l) := by
  rw [span, Nat.one_shiftLeft]

/-- The frames of the children of an aligned leaf. -/
theorem frameOk_child {p j : Nat} (hl : l = 0 ∨ l = 1) (hp : p % span (l + 1) = 0) (hlt : p < physLimit) (hj : j < 512) :
    FrameOk (p + j * span l) := by
  have h0 : span 0 = 4096 := by decide
  have h1 : span 1 = 4096 * 512 := by decide
  have h2 : span 2 = 4096 * 512 * 512 := by decide
  unfold FrameOk pageSize physLimit at *
  rcases hl with rfl | rfl
  · rw [h1] at hp
    rw [h0]
    omega
  · rw [h2] at hp
    rw [h1]
    omega

/-- On x86_64 and aarch64 every flag and every address bit survives. -/
theorem kept_of_lawful {H : Arch} (hl : l = 0 ∨ l = 1) {entry : Nat}
    (halign : H.format.entryPhys entry (l + 1) % span (l + 1) = 0)
    (hphys : ∀ q < 2 ^ 36, ∀ flags, H.format.entryPhys (H.format.leafEntry (q <<< 12) flags l) l = q <<< 12)
    (hflags : ∀ q < 2 ^ 36, H.leafRights (H.format.leafEntry (q <<< 12) (H.format.entryFlags entry) l) =
      H.leafRights entry) : Kept H entry l := by
  intro j hj
  have hok := frameOk_child hl halign (phys_lt_of_mem H.format_mem entry (l + 1)) hj
  obtain ⟨q, hq, he⟩ := hok.exists_shift
  rw [fillerOf, if_pos (show j < ptEntries from hj), he]
  exact ⟨hphys q hq _, hflags q hq⟩

theorem x86_64_kept (hl : l = 0 ∨ l = 1) (halign : phys % span (l + 1) = 0) :
    Kept .x86_64 (x86_64.leafEntry phys flags (l + 1)) l := by
  refine kept_of_lawful hl ?_ (fun q hq fl => ?_) fun q hq => ?_
  · rw [span_two_pow] at *
    simp only [Arch.format, x86_64, X86.leafPte2m, X86.pteAddress, Nat.or_assoc, Nat.add_one_ne_zero, if_false]
    obtain ⟨r, w, x, u⟩ := flags
    exact or_and_addressMask_mod (by revert r w x u; decide) halign
  · simp only [Arch.format, x86_64, X86.pteAddress, X86.leafPte4k, X86.leafPte2m, Nat.or_assoc]
    obtain ⟨r, w, x, u⟩ := fl
    split <;> exact and_addressMask hq (by revert r w x u; decide)
  · generalize x86_64.leafEntry phys flags (l + 1) = entry
    have hr : (X86.entryFlags entry).r = true ∧ (X86.entryFlags entry).x = true := ⟨rfl, rfl⟩
    simp only [Arch.format, Arch.leafRights, x86_64]
    generalize X86.entryFlags entry = fl at hr ⊢
    obtain ⟨r, w, x, u⟩ := fl
    obtain ⟨rfl, rfl⟩ := hr
    split
    all_goals
      simp only [X86.entryFlags, X86.leafPte4k, X86.leafPte2m, Nat.or_assoc,
        or_and_low (m := 2) (k := 12) (by decide), or_and_low (m := 4) (k := 12) (by decide)]
      revert w u
      decide

theorem aarch64_kept (hl : l = 0 ∨ l = 1) (halign : phys % span (l + 1) = 0) :
    Kept .aarch64 (aarch64.leafEntry phys flags (l + 1)) l := by
  refine kept_of_lawful hl ?_ (fun q hq fl => ?_) fun q hq => ?_
  · rw [span_two_pow] at *
    simp only [Arch.format, aarch64, Aarch64.blockPte, Aarch64.pteAddress, Nat.or_assoc, Nat.add_one_ne_zero, if_false]
    obtain ⟨r, w, x, u⟩ := flags
    exact or_and_addressMask_mod (by revert r w x u; decide) halign
  · simp only [Arch.format, aarch64, Aarch64.pteAddress, Aarch64.pagePte, Aarch64.blockPte, Nat.or_assoc]
    obtain ⟨r, w, x, u⟩ := fl
    split <;> exact and_addressMask hq (by revert r w x u; decide)
  · generalize aarch64.leafEntry phys flags (l + 1) = entry
    have hr : (Aarch64.entryFlags entry).r = true := rfl
    simp only [Arch.format, Arch.leafRights, aarch64]
    generalize Aarch64.entryFlags entry = fl at hr ⊢
    obtain ⟨r, w, x, u⟩ := fl
    obtain rfl : r = true := hr
    split
    all_goals
      simp only [Aarch64.entryFlags, Aarch64.pagePte, Aarch64.blockPte, Nat.or_assoc,
        or_and_low (m := 128) (k := 12) (by decide), or_and_low (m := 64) (k := 12) (by decide),
        or_and_of_disjoint (shiftLeft_and_uxn hq)]
      revert w x u
      decide

/-- The rights that Sv39 reads in an entry for `flags`. -/
theorem riscv64_leafRights {w : Nat} (hw : w % 2 ^ 10 = 0) (flags : MappingFlags) :
    Arch.leafRights .riscv64 (w ||| Riscv64.flagsToHw flags) = flags := by
  obtain ⟨q, rfl⟩ : ∃ q, w = q <<< 10 := ⟨w / 2 ^ 10, by rw [Nat.shiftLeft_eq]; omega⟩
  simp only [Arch.leafRights, or_and_low (m := 2) (k := 10) (by decide), or_and_low (m := 4) (k := 10) (by decide),
    or_and_low (m := 8) (k := 10) (by decide), or_and_low (m := 16) (k := 10) (by decide)]
  obtain ⟨r, w, x, u⟩ := flags
  revert r w x u
  decide

/-- A 2 MiB leaf of Sv39 is kept exactly when it is user memory. -/
theorem riscv64_kept_iff (halign : phys % span 1 = 0) :
    Kept .riscv64 (riscv64.leafEntry phys flags 1) 0 ↔ flags.u = true := by
  have hp := large_aligned_of_mem (F := riscv64) (by simp [architectures]) flags halign
  rw [span_two_pow] at halign
  have hrights : Arch.leafRights .riscv64 (riscv64.leafEntry phys flags 1) = flags := by
    refine riscv64_leafRights ?_ flags
    refine and_mod_two_pow_eq_zero ?_
    rw [Nat.shiftRight_eq_div_pow]
    omega
  have hdecode : Riscv64.mappingFlags (riscv64.leafEntry phys flags 1) = { flags with u := true } := by
    have h := hrights
    obtain ⟨r, w, x, u⟩ := flags
    simp only [Arch.leafRights, MappingFlags.mk.injEq] at h
    simp [Riscv64.mappingFlags, h.1, h.2.1, h.2.2.1]
  -- every child is user memory
  have hchild : ∀ j < 512, FrameOk (riscv64.entryPhys (riscv64.leafEntry phys flags 1) 1 + j * span 0) ∧
      fillerOf riscv64 (riscv64.leafEntry phys flags 1) 0 j = Riscv64.leafPte
        (riscv64.entryPhys (riscv64.leafEntry phys flags 1) 1 + j * span 0) { flags with u := true } := by
    intro j hj
    refine ⟨frameOk_child (Or.inl rfl) hp (and_addressMask_lt _) hj, ?_⟩
    rw [fillerOf, if_pos (show j < ptEntries from hj), ← hdecode]
    rfl
  have hright : ∀ j < 512, Arch.leafRights .riscv64 (fillerOf riscv64 (riscv64.leafEntry phys flags 1) 0 j) =
      { flags with u := true } := by
    intro j hj
    obtain ⟨hok, hfill⟩ := hchild j hj
    rw [hfill]
    refine riscv64_leafRights ?_ _
    rw [Nat.shiftRight_eq_div_pow]
    have := hok.1
    unfold pageSize at this
    omega
  constructor
  · intro hk
    have h₀ := (hk 0 (by decide)).2
    rw [hrights] at h₀
    rw [← h₀]
    exact congrArg MappingFlags.u (hright 0 (by decide))
  · intro hu j hj
    obtain ⟨hok, hfill⟩ := hchild j hj
    refine ⟨?_, ?_⟩
    · exact (congrArg (riscv64.entryPhys · 0) hfill).trans (riscv64_lawful.phys_leaf hok _ 0)
    · rw [hrights]
      refine (hright j hj).trans ?_
      rw [← hu]

/-- The address in a 2 MiB leaf of Sv39 has no bit 21. -/
theorem riscv64_megapage_testBit (p : Nat) (flags : MappingFlags) :
    (riscv64.entryPhys (riscv64.leafEntry p flags 1) 1).testBit 21 = false := by
  have hf : (Riscv64.flagsToHw flags).testBit 19 = false := by
    obtain ⟨r, w, x, u⟩ := flags
    revert r w x u
    decide
  have hm : (usizeMax ^^^ 0xFFC00).testBit 19 = false := by decide
  simp only [riscv64, if_true, Riscv64.pteAddress, Riscv64.megapage2mPte, Frame.andNot, Nat.testBit_and,
    Nat.testBit_shiftLeft, Nat.testBit_or, hf, hm, Bool.and_false, Bool.or_false, Bool.false_and, Nat.reduceSub]

theorem riscv64_megapage_ne {p : Nat} (hp : p % 2 ^ 30 = 0) (flags : MappingFlags) :
    riscv64.entryPhys (riscv64.leafEntry (p + 1 * span 1) flags 1) 1 ≠ p + 1 * span 1 := by
  have hs : span 1 = 2 ^ 21 := by decide
  have hbit : (p + 1 * span 1).testBit 21 = true := by
    rw [hs, Nat.testBit_eq_decide_div_mod_eq, decide_eq_true_eq]
    omega
  intro he
  have hno := riscv64_megapage_testBit (p + 1 * span 1) flags
  rw [he, hbit] at hno
  cases hno

/-- A 1 GiB leaf of Sv39 is not kept: its odd children lose bit 21 of the address. -/
theorem riscv64_not_kept (halign : phys % span 2 = 0) : ¬ Kept .riscv64 (riscv64.leafEntry phys flags 2) 1 := by
  intro hk
  have hflags : (Riscv64.flagsToHw flags <<< 2) &&& addressMask = 0 := by
    obtain ⟨r, w, x, u⟩ := flags
    clear hk
    revert r w x u
    decide
  have hp : riscv64.entryPhys (riscv64.leafEntry phys flags 2) 2 % 2 ^ 30 = 0 := by
    rw [span_two_pow] at halign
    show (((phys >>> 2) ||| Riscv64.flagsToHw flags) <<< 2 &&& addressMask) % 2 ^ 30 = 0
    rw [Nat.shiftLeft_or_distrib]
    refine or_and_addressMask_mod hflags ?_
    rw [Nat.shiftRight_eq_div_pow, Nat.shiftLeft_eq]
    omega
  obtain ⟨hchild, -⟩ := hk 1 (by decide)
  rw [fillerOf, if_pos (show 1 < ptEntries by decide)] at hchild
  simp only [Arch.format, Nat.reduceAdd] at hchild
  exact riscv64_megapage_ne hp _ hchild

/-- When the leaves that take a leaf's place are as good as it. -/
theorem kept_iff {H : Arch} (hl : l = 0 ∨ l = 1) (halign : phys % span (l + 1) = 0) :
    Kept H (H.format.leafEntry phys flags (l + 1)) l ↔ (H = .riscv64 → l = 0 ∧ flags.u = true) := by
  cases H with
  | x86_64 => exact ⟨fun _ => nofun, fun _ => x86_64_kept hl halign⟩
  | aarch64 => exact ⟨fun _ => nofun, fun _ => aarch64_kept hl halign⟩
  | riscv64 =>
    rcases hl with rfl | rfl
    · exact (riscv64_kept_iff halign).trans ⟨fun hu _ => ⟨rfl, hu⟩, fun h => (h rfl).2⟩
    · exact ⟨fun hk => absurd hk (riscv64_not_kept halign), fun h => absurd (h rfl).1 (by decide)⟩

end Entries

/-! ## A split leaf -/

section Splitting

variable {H : Arch} {bound : Nat} {other : List Extent} {kernel : Nat → Prop} {data tables : List Nat} {s s' : Memory}
  {K : Nat → Option Kind} {root half va l page phys : Nat} {flags : MappingFlags}

/-- A pointer leaves all rights to the table. -/
theorem tableRights_tableEntry (H : Arch) {child : Nat} (hok : FrameOk child) :
    H.tableRights (H.format.tableEntry child) = .all := by
  obtain ⟨q, -, rfl⟩ := hok.exists_shift
  cases H with
  | riscv64 | aarch64 => rfl
  | x86_64 =>
    simp only [Arch.tableRights, Arch.format, x86_64, X86.tablePte, X86.entryFlags, Nat.or_assoc,
      or_and_low (m := 2) (k := 12) (by decide), or_and_low (m := 4) (k := 12) (by decide)]
    decide

/-- The access of the addresses of a leaf, before and after it is split. -/
theorem split_access (h : Census H.format bound other kernel data s K tables)
    (hroot : K root = some ⟨H.format.top, half⟩) (hl : l + 1 ≤ H.format.top)
    (hreach : tableAt H.format s root va (H.format.top - (l + 1)) = some page)
    (hpr : H.format.entryPresent (s.mem page (tableIndex va (l + 1))) = true)
    (hlf : H.format.entryIsLeaf (s.mem page (tableIndex va (l + 1))) (l + 1) = true)
    (he : s.splitLeaf H.format page (tableIndex va (l + 1)) (l + 1) = some (.ok (), s')) {a : Nat}
    (hsame : a / span (l + 1) = va / span (l + 1)) :
    ∃ b, ((∀ e, H.tableRights e = .all) → b = .all) ∧
      access H s root a = leafAccess H a (l + 1) (s.mem page (tableIndex va (l + 1))) b ∧
      access H s' root a =
        leafAccess H a l (fillerOf H.format (s.mem page (tableIndex va (l + 1))) l (tableIndex a l)) b := by
  have hL := lawful_of_mem H.format_mem
  obtain ⟨_, _, hr, _⟩ | ⟨child, hal, -, hok, hmem, -, -⟩ := splitLeaf_cases he
  · cases hr
  obtain ⟨hK, -⟩ := h.alloc hal
  have hsub : H.format.top - (H.format.top - (l + 1)) = l + 1 := by omega
  have hidx : tableIndex a (l + 1) = tableIndex va (l + 1) := by rw [tableIndex_eq_span, tableIndex_eq_span, hsame]
  have hat : tableAt H.format s root a (H.format.top - (l + 1)) = some page := by
    rw [← hreach]
    refine tableAt_same (Nat.sub_le _ _) ?_
    rw [hsub, div_span_succ, div_span_succ va, hsame]
  obtain ⟨half', hkind⟩ := h.typed.tableAt_kind hroot (Nat.sub_le _ _) hat
  rw [hsub] at hkind
  obtain ⟨b, hb, hpath⟩ := exists_accessAt h.typed hroot (Nat.sub_le _ _) hat
  rw [hsub] at hpath
  refine ⟨b, hb, ?_, ?_⟩
  · rw [hpath s fun _ _ _ _ => rfl, accessAt_of_leaf (by rw [hidx]; exact hlf), hidx]
  · have habove : ∀ f k, K f = some k → l + 1 < k.level → s'.mem f = s.mem f := by
      intro f k hk hlt
      funext j
      rw [hmem, if_neg, if_neg]
      · rintro rfl
        rw [hK] at hk
        cases hk
      · rintro ⟨rfl, -⟩
        rw [hkind] at hk
        cases hk
        exact absurd hlt (Nat.lt_irrefl _)
    have hentry : s'.mem page (tableIndex a (l + 1)) = H.format.tableEntry child := by rw [hmem, if_pos ⟨rfl, hidx⟩]
    have hp : Points H.format s' page (l + 1) (tableIndex a (l + 1)) child := by
      refine ⟨tableIndex_lt a _, ?_, ?_, ?_⟩ <;> rw [hentry]
      · exact hL.present_table hok.frameOk
      · exact hL.not_leaf_table hok.frameOk l
      · exact hL.phys_table hok.frameOk (l + 1)
    have hword : ∀ j, s'.mem child j = fillerOf H.format (s.mem page (tableIndex va (l + 1))) l j := by
      intro j
      rw [hmem, if_neg, if_pos rfl]
      rintro ⟨rfl, -⟩
      rw [hkind] at hK
      cases hK
    have hfl := fillerOf_leaf (splits_of_mem H.format_mem) hpr hlf (tableIndex_lt a l)
    rw [hpath s' habove, accessAt_of_points hp, hentry, tableRights_tableEntry H hok.frameOk, MappingFlags.inter_all,
      accessAt_of_leaf (by rw [hword]; exact hfl), hword]

theorem mod_span_succ (a l : Nat) : a % span (l + 1) = tableIndex a l * span l + a % span l := by
  have hs : span (l + 1) = span l * 512 := by rw [span_eq, span_eq, Nat.pow_succ, Nat.mul_assoc]
  rw [hs, Nat.mod_mul, tableIndex_eq_span, Nat.mul_comm, Nat.add_comm]

/-- Leaves that are kept give every address the access it had. -/
theorem leafAccess_of_kept {entry a : Nat} {b : MappingFlags} (hk : Kept H entry l)
    (hpr : H.format.entryPresent entry = true) :
    leafAccess H a l (fillerOf H.format entry l (tableIndex a l)) b = leafAccess H a (l + 1) entry b := by
  have hlt := tableIndex_lt a l
  obtain ⟨hphys, hrights⟩ := hk _ hlt
  have hfill : H.format.entryPresent (fillerOf H.format entry l (tableIndex a l)) = true := by
    rw [fillerOf, if_pos (show tableIndex a l < ptEntries from hlt)]
    exact (splits_of_mem H.format_mem).leaf_present ..
  rw [leafAccess, leafAccess, if_pos hpr, if_pos hfill, hphys, hrights, mod_span_succ a l, Nat.add_assoc]

/-- A leaf that gives every address of its region the access it had is kept. -/
theorem kept_of_leafAccess (base : Nat) {entry : Nat} (hpr : H.format.entryPresent entry = true)
    (hacc : ∀ a, a / span (l + 1) = base → leafAccess H a l (fillerOf H.format entry l (tableIndex a l)) .all =
      leafAccess H a (l + 1) entry .all) : Kept H entry l := by
  intro j hj
  have hs : span (l + 1) = span l * 512 := by rw [span_eq, span_eq, Nat.pow_succ, Nat.mul_assoc]
  have hpos := span_pos l
  -- the first address of the page `j`
  have hdiv : (base * 512 + j) * span l / span l = base * 512 + j := Nat.mul_div_cancel _ hpos
  have hidx : tableIndex ((base * 512 + j) * span l) l = j := by
    rw [tableIndex_eq_span, hdiv]
    omega
  have hoff : (base * 512 + j) * span l % span l = 0 := Nat.mul_mod_left _ _
  have h := hacc ((base * 512 + j) * span l) (by rw [div_span_succ, hdiv]; omega)
  have hfill : H.format.entryPresent (fillerOf H.format entry l j) = true := by
    rw [fillerOf, if_pos (show j < ptEntries from hj)]
    exact (splits_of_mem H.format_mem).leaf_present ..
  rw [hidx, leafAccess, leafAccess, if_pos hpr, if_pos hfill, mod_span_succ, hidx, hoff] at h
  simpa using h

/-- **Splitting a leaf**: let a table page of level 1 or 2 on the walk of `va` hold a leaf that maps an aligned frame with
any flags. When `split_leaf` succeeds, every address of the leaf has the access it had exactly when the architecture is
not riscv64, or the leaf is a 2 MiB one of user memory. -/
theorem split_iff (h : Census H.format bound other kernel data s K tables)
    (hroot : K root = some ⟨H.format.top, half⟩) (hl : l = 0 ∨ l = 1)
    (hreach : tableAt H.format s root va (H.format.top - (l + 1)) = some page)
    (hentry : s.mem page (tableIndex va (l + 1)) = H.format.leafEntry phys flags (l + 1))
    (hleaf : H.format.entryIsLeaf (H.format.leafEntry phys flags (l + 1)) (l + 1) = true)
    (halign : phys % span (l + 1) = 0)
    (he : s.splitLeaf H.format page (tableIndex va (l + 1)) (l + 1) = some (.ok (), s')) :
    (∀ a, a / span (l + 1) = va / span (l + 1) → access H s' root a = access H s root a) ↔
      (H = .riscv64 → l = 0 ∧ flags.u = true) := by
  have hpr := (splits_of_mem H.format_mem).leaf_present phys flags (l + 1)
  have htop : l + 1 ≤ H.format.top := by
    have h2 : 2 ≤ H.format.top := by cases H <;> decide
    omega
  have hacc := fun {a : Nat} (ha : a / span (l + 1) = va / span (l + 1)) =>
    split_access h hroot htop hreach (by rw [hentry]; exact hpr) (by rw [hentry]; exact hleaf) he ha
  rw [hentry] at hacc
  rw [← kept_iff hl halign]
  constructor
  · intro hsame
    by_cases hH : H = .riscv64
    · refine kept_of_leafAccess (va / span (l + 1)) hpr fun a ha => ?_
      obtain ⟨b, hb, hbefore, hafter⟩ := hacc ha
      obtain rfl := hb fun e => by rw [hH]; rfl
      rw [← hbefore, ← hafter, hsame a ha]
    · exact (kept_iff hl halign).2 fun hr => absurd hr hH
  · intro hk a ha
    obtain ⟨b, -, hbefore, hafter⟩ := hacc ha
    rw [hbefore, hafter, leafAccess_of_kept hk hpr]

/-- A user page of riscv64 is split. -/
theorem split_iff_user : ∃ s s', [Request.map 0x200000 0x400000 readWrite .page2M].foldlM
      (AddrSpace.serve riscv64 0x1000) (freshSpace 0x9000) = some s ∧
    s.splitLeaf riscv64 0x2000 1 1 = some (.ok (), s') ∧
    ∀ a, a / span 1 = 0x200000 / span 1 → access .riscv64 s' 0x1000 a = access .riscv64 s 0x1000 a := by
  have hex : ∃ s s', [Request.map 0x200000 0x400000 readWrite .page2M].foldlM
        (AddrSpace.serve riscv64 0x1000) (freshSpace 0x9000) = some s ∧
      s.splitLeaf riscv64 0x2000 1 1 = some (.ok (), s') ∧ (tableAt riscv64 s 0x1000 0x200000 1, s.mem 0x2000 1) =
        (some 0x2000, riscv64.leafEntry 0x400000 readWrite 1) := exists_of_accepted (by decide +kernel)
  obtain ⟨s, s', hrun, hsplit, hstate⟩ := hex
  have hat : tableAt (Arch.format .riscv64) s 0x1000 0x200000 ((Arch.format .riscv64).top - (0 + 1)) = some 0x2000 :=
    (Prod.mk.inj hstate).1
  have hentry : s.mem 0x2000 (tableIndex 0x200000 (0 + 1)) = (Arch.format .riscv64).leafEntry 0x400000 readWrite (0 + 1) :=
    (Prod.mk.inj hstate).2
  have hnew : AddrSpace.new (freshMemory 0x9000) = some (.ok 0x1000, freshSpace 0x9000) := rfl
  obtain ⟨K, tables, hlive⟩ := run_live riscv64_lawful riscv64_splits _
    (new_live riscv64_lawful (fresh_census freshMemory_pool fun _ => rfl) (fun f hf => absurd rfl hf) hnew)
    (by decide) hrun
  have hiff := split_iff (H := .riscv64) hlive.census hlive.root_own (Or.inl rfl) hat hentry (by decide) (by decide) hsplit
  exact ⟨s, s', hrun, hsplit, hiff.2 fun _ => ⟨rfl, rfl⟩⟩

def kernelReadWrite : MappingFlags := ⟨true, true, false, false⟩

/-- A kernel page of riscv64 is split, and user code can write to it. -/
theorem split_opens_kernel : ∃ s s', [Request.map 0x200000 0x400000 kernelReadWrite .page2M].foldlM
      (AddrSpace.serve riscv64 0x1000) (freshSpace 0x9000) = some s ∧
    s.splitLeaf riscv64 0x2000 1 1 = some (.ok (), s') ∧
    (access .riscv64 s 0x1000 0x200000, access .riscv64 s' 0x1000 0x200000) =
      (some (0x400000, kernelReadWrite), some (0x400000, readWrite)) :=
  exists_of_accepted (by decide +kernel)

end Splitting

end Koros.Mmu
