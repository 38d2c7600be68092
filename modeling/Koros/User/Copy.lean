import Koros.Signal.Deliver
import Koros.User.Stack

/-!
# Copies between the kernel and user memory

`copy_from` and `copy_to` of `korix/src/syscall/user_mem.rs`: the range is checked page by page, and the bytes are copied
in chunks that end at page boundaries.

- `validateRange_iff`: the check covers every byte of the range;
- `copyFromLoop_spec`, `copyToLoop_eq`: the loop goes on where the check said it may;
- `userCopies_exact`: a copy succeeds exactly if every byte of the range may be accessed, and then it is exact;
- `checkRange_ofSpace`, `copyFrom_ofSpace`, `copyTo_ofSpace`: the checked memory that signals are delivered on, and that the
  file calls work on, is what an address space shows.
-/
set_option autoImplicit false

namespace Koros.UserMem

open Koros.Frame Koros.Mmu Koros.Lib Koros.Mm

/-! ## The model -/

section Model

variable (arch : Mm.Arch) (space : AddressSpace)

/-- `current_user_phys` for a process with the address space `space`. -/
def currentUserPhys (address : Nat) (write : Bool) : Option Nat :=
  if space.validateRange arch address 1 write then space.translate address else none

def checkRange (address length : Nat) (write : Bool) : Option Unit :=
  if address = 0 then none
  else do
    let stop ← checkedAdd address length
    if space.validateRange arch address (stop - address) write then some () else none

/-- The bytes behind a physical address. -/
def readBytes (s : Memory) (paddr n : Nat) : List Byte := (List.range n).map fun i => getByte s (paddr + i)

/-- The loop of `copy_from`, with `n` bytes to go; `fuel` is at least that. -/
def copyFromLoop (s : Memory) (address : Nat) : (fuel copied n : Nat) → Option (List Byte)
  | _, _, 0 => some []
  | 0, _, _ + 1 => none
  | fuel + 1, copied, n + 1 => do
    let user ← checkedAdd address copied
    let physical ← currentUserPhys arch space user false
    let chunk := min (pageSize - user % pageSize) (n + 1)
    let rest ← copyFromLoop s address fuel (copied + chunk) (n + 1 - chunk)
    some (readBytes s physical chunk ++ rest)

/-- What `copy_from` leaves in a destination of `length` bytes. -/
def copyFrom (s : Memory) (address length : Nat) : Option (List Byte) := do
  checkRange arch space address length false
  copyFromLoop arch space s address length 0 length

/-- Where the next chunk of `copy_to` goes. -/
def nextChunk (address copied : Nat) : Option (Nat × Nat) := do
  let user ← checkedAdd address copied
  let physical ← currentUserPhys arch space user true
  some (user, physical)

/-- The loop of `copy_to`, with the bytes to go; `fuel` is at least their number. -/
def copyToLoop (address : Nat) : (fuel copied : Nat) → List Byte → Memory → Option Unit × Memory
  | _, _, [], s => (some (), s)
  | 0, _, _ :: _, s => (none, s)
  | fuel + 1, copied, b :: rest, s =>
    match nextChunk arch space address copied with
    | none => (none, s)
    | some (user, physical) =>
      let source := b :: rest
      let chunk := min (pageSize - user % pageSize) source.length
      copyToLoop address fuel (copied + chunk) (source.drop chunk) (Mm.copyTo s physical (source.take chunk))

def copyTo (s : Memory) (address : Nat) (source : List Byte) : Option Unit × Memory :=
  match checkRange arch space address source.length true with
  | none => (none, s)
  | some () => copyToLoop arch space address source.length 0 source s

end Model

/-! ## The check -/

/-- Every byte of `[address, address + length)` is below the limit, on a page that is mapped and writable if asked. -/
def Accessible (arch : Mm.Arch) (space : AddressSpace) (write : Bool) (address length : Nat) : Prop :=
  ∀ w, address ≤ w → w < address + length → w < arch.userAddressLimit ∧
    ∃ page, space.pages[pageOf w]? = some page ∧ (write = true → page.flags.w = true)

section Check

variable {arch : Mm.Arch} {space : AddressSpace} {write : Bool} {address length : Nat}

theorem pageAllowed_iff {page : Nat} : space.pageAllowed write page = true ↔
    ∃ mapping, space.pages[page]? = some mapping ∧ (write = true → mapping.flags.w = true) := by
  unfold AddressSpace.pageAllowed
  cases space.pages[page]? with
  | none => simp
  | some mapping => cases write <;> simp

/-- A range that passed has all its pages. -/
theorem pageAllowed_of_pagesAllowed : ∀ (n : Nat) {page : Nat}, space.pagesAllowed write n page = true →
    ∀ k ≤ n, space.pageAllowed write (page + k * pageSize) = true := by
  intro n
  induction n with
  | zero =>
    intro page h k hk
    obtain rfl := Nat.le_zero.1 hk
    rw [Nat.zero_mul, Nat.add_zero]
    exact h
  | succ n ih =>
    intro page h k hk
    rw [AddressSpace.pagesAllowed, Bool.and_eq_true] at h
    obtain ⟨next, hnext, hrest⟩ := (Option.any_eq_true _ _).1 h.2
    cases k with
    | zero =>
      rw [Nat.zero_mul, Nat.add_zero]
      exact h.1
    | succ k =>
      obtain ⟨-, rfl⟩ := checkedAdd_some hnext
      have := ih hrest k (Nat.le_of_succ_le_succ hk)
      rwa [Nat.add_assoc, Nat.add_comm pageSize, ← Nat.succ_mul] at this

theorem accessible_of_validateRange (hlen : length ≠ 0) (h : space.validateRange arch address length write = true) :
    Accessible arch space write address length := by
  unfold AddressSpace.validateRange at h
  rw [if_neg hlen] at h
  split at h
  · cases h
  rename_i stop hstop
  obtain ⟨-, rfl⟩ := checkedAdd_some hstop
  split at h
  · cases h
  rename_i hlimit
  intro w hw hw'
  refine ⟨by omega, pageAllowed_iff.1 ?_⟩
  -- the page of `w` is one of those that the loop visits
  have hpage : pageOf address + (pageOf w - pageOf address) / pageSize * pageSize = pageOf w := by
    unfold pageOf pageSize
    omega
  rw [← hpage]
  refine pageAllowed_of_pagesAllowed _ h _ ?_
  unfold pageOf pageSize
  omega

theorem validateRange_of_accessible (hlen : length ≠ 0) (h : Accessible arch space write address length) :
    space.validateRange arch address length write = true := by
  have hlimit := arch.userAddressLimit_le
  have hlast := (h (address + length - 1) (by omega) (by omega)).1
  have hadd : checkedAdd address length = some (address + length) := checkedAdd_eq (by omega)
  unfold AddressSpace.validateRange
  rw [if_neg hlen, hadd]
  dsimp only
  rw [if_neg (by omega)]
  have hcount : pageOf address + (pageOf (address + length - 1) - pageOf address) / pageSize * pageSize ≤
      address + length - 1 := by
    unfold pageOf pageSize
    omega
  refine pagesAllowed_of_forall write _ (by omega) fun k hk => ?_
  have hk' := Nat.mul_le_mul_right pageSize hk
  -- the page holds the first byte of the range, or starts inside the range
  have hpage : pageOf (max address (pageOf address + k * pageSize)) = pageOf address + k * pageSize := by
    unfold pageOf pageSize
    omega
  rw [← hpage]
  exact pageAllowed_iff.2 (h _ (by omega) (by omega)).2

/-- **The check** covers every byte of the range. -/
theorem validateRange_iff (hlen : length ≠ 0) :
    space.validateRange arch address length write = true ↔ Accessible arch space write address length :=
  ⟨accessible_of_validateRange hlen, validateRange_of_accessible hlen⟩

theorem checkRange_iff (haddr : address ≠ 0) (hlen : length ≠ 0) :
    checkRange arch space address length write = some () ↔ Accessible arch space write address length := by
  rw [← validateRange_iff hlen, checkRange, if_neg haddr]
  constructor
  · intro h
    obtain ⟨stop, hstop, h⟩ := Option.bind_eq_some_iff.1 h
    obtain ⟨-, rfl⟩ := checkedAdd_some hstop
    rw [Nat.add_sub_cancel_left] at h
    by_contra hno
    rw [if_neg hno] at h
    cases h
  · intro h
    have hlimit := arch.userAddressLimit_le
    have hlast := (accessible_of_validateRange hlen h (address + length - 1) (by omega) (by omega)).1
    have hadd : checkedAdd address length = some (address + length) := checkedAdd_eq (by omega)
    rw [hadd]
    show (if space.validateRange arch address (address + length - address) write then some () else none) = _
    rw [Nat.add_sub_cancel_left, if_pos h]

theorem Accessible.currentUserPhys {w : Nat} (h : Accessible arch space write address length) (hw : address ≤ w)
    (hw' : w < address + length) : ∃ p, currentUserPhys arch space w write = some p ∧ space.translate w = some p := by
  obtain ⟨hlimit, page, hp, hflags⟩ := h w hw hw'
  have hone : space.validateRange arch w 1 write = true := by
    refine validateRange_of_accessible (by decide) fun v hv hv' => ?_
    obtain rfl : v = w := by omega
    exact ⟨hlimit, page, hp, hflags⟩
  have ht : space.translate w = some (page.phys + w % pageSize) := by
    rw [AddressSpace.translate, hp]
    rfl
  refine ⟨_, ?_, ht⟩
  rw [UserMem.currentUserPhys, if_pos hone, ht]

end Check

/-! ## The loops -/

section Loops

variable {arch : Mm.Arch} {space : AddressSpace} {address total : Nat} {s : Memory}

theorem getElem?_readBytes {p n i : Nat} : (readBytes s p n)[i]? = if i < n then some (getByte s (p + i)) else none := by
  rw [readBytes, List.getElem?_map]
  split
  · rename_i hi
    rw [List.getElem?_range hi]
    rfl
  · rename_i hi
    rw [List.getElem?_eq_none (by rw [List.length_range]; omega)]
    rfl

/-- **The loop of `copy_from`** yields the bytes of the range. -/
theorem copyFromLoop_spec (h : Accessible arch space false address total) (hmax : address + total ≤ usizeMax) :
    ∀ (fuel copied n : Nat), n ≤ fuel → copied + n ≤ total →
    ∃ bytes, copyFromLoop arch space s address fuel copied n = some bytes ∧ bytes.length = n ∧
      ∀ i < n, space.userByte s (address + copied + i) = bytes[i]? := by
  intro fuel
  induction fuel with
  | zero =>
    intro copied n hn _
    obtain rfl := Nat.le_zero.1 hn
    exact ⟨[], rfl, rfl, fun i hi => absurd hi (Nat.not_lt_zero i)⟩
  | succ fuel ih =>
    intro copied n hn htotal
    cases n with
    | zero => exact ⟨[], rfl, rfl, fun i hi => absurd hi (Nat.not_lt_zero i)⟩
    | succ n =>
      obtain ⟨p, hp, ht⟩ := h.currentUserPhys (w := address + copied) (by omega) (by omega)
      have hadd : checkedAdd address copied = some (address + copied) := checkedAdd_eq (by omega)
      have hoff := Nat.mod_lt (address + copied) (show 0 < pageSize by decide)
      simp only [copyFromLoop, hadd, hp, Option.bind_eq_bind, Option.bind_some]
      generalize hchunk : min (pageSize - (address + copied) % pageSize) (n + 1) = chunk
      obtain ⟨rest, hrest, hlen, hbytes⟩ := ih (copied + chunk) (n + 1 - chunk) (by omega) (by omega)
      have hfirst : (readBytes s p chunk).length = chunk := by rw [readBytes, List.length_map, List.length_range]
      refine ⟨readBytes s p chunk ++ rest, by rw [hrest]; rfl, ?_, fun i hi => ?_⟩
      · rw [List.length_append, hfirst, hlen]
        omega
      · by_cases hin : i < chunk
        · rw [List.getElem?_append_left (by rw [hfirst]; exact hin), getElem?_readBytes, if_pos hin,
            AddressSpace.userByte, AddressSpace.translate_add ht (by omega)]
          rfl
        · rw [List.getElem?_append_right (by rw [hfirst]; omega), hfirst, ← hbytes (i - chunk) (by omega)]
          congr 1
          omega

/-- **The loop of `copy_to`** does what that of `write` does. -/
theorem copyToLoop_eq (h : Accessible arch space true address total) (hmax : address + total ≤ usizeMax) :
    ∀ (fuel copied : Nat) (bytes : List Byte) (s : Memory), bytes.length ≤ fuel → copied + bytes.length ≤ total →
    copyToLoop arch space address fuel copied bytes s = (some (), (space.writeLoop address fuel copied bytes s).2) ∧
      (space.writeLoop address fuel copied bytes s).1 = .ok () := by
  intro fuel
  induction fuel with
  | zero =>
    intro copied bytes s hn _
    obtain rfl := List.eq_nil_of_length_eq_zero (Nat.le_zero.1 hn)
    exact ⟨rfl, rfl⟩
  | succ fuel ih =>
    intro copied bytes s hn htotal
    cases bytes with
    | nil => exact ⟨rfl, rfl⟩
    | cons b bytes =>
      have hpos : 0 < (b :: bytes).length := Nat.succ_pos _
      obtain ⟨p, hp, ht⟩ := h.currentUserPhys (w := address + copied) (by omega) (by omega)
      have hadd : checkedAdd address copied = some (address + copied) := checkedAdd_eq (by omega)
      have hnext : nextChunk arch space address copied = some (address + copied, p) := by
        simp only [nextChunk, hadd, hp, Option.bind_eq_bind, Option.bind_some]
      have hoff := Nat.mod_lt (address + copied) (show 0 < pageSize by decide)
      unfold copyToLoop AddressSpace.writeLoop
      rw [hnext, hadd]
      dsimp only
      rw [ht]
      dsimp only
      generalize hchunk : min (pageSize - (address + copied) % pageSize) (b :: bytes).length = chunk
      have hdrop : ((b :: bytes).drop chunk).length = (b :: bytes).length - chunk := List.length_drop
      exact ih _ _ _ (by omega) (by omega)

end Loops

/-! ## The copies -/

section Copies

variable {arch : Mm.Arch} {bound : Nat} {other : List Extent} {rest : List Nat} {space : AddressSpace} {m : Machine}
  {address : Nat}

theorem copyFrom_cases (haddr : address ≠ 0) {length : Nat} (hlen : length ≠ 0) (s : Memory) :
    (¬ Accessible arch space false address length ∧ copyFrom arch space s address length = none) ∨
      (Accessible arch space false address length ∧ ∃ bytes, copyFrom arch space s address length = some bytes ∧
        bytes.length = length ∧ ∀ i < length, space.userByte s (address + i) = bytes[i]?) := by
  by_cases h : Accessible arch space false address length
  · have hlimit := arch.userAddressLimit_le
    have hlast := (h (address + length - 1) (by omega) (by omega)).1
    obtain ⟨bytes, hloop, hcount, hbytes⟩ := copyFromLoop_spec (s := s) h (by omega) length 0 length (Nat.le_refl _) (by omega)
    refine Or.inr ⟨h, bytes, ?_, hcount, hbytes⟩
    rw [copyFrom, (checkRange_iff haddr hlen).2 h]
    exact hloop
  · refine Or.inl ⟨h, ?_⟩
    cases hc : checkRange arch space address length false with
    | none =>
      rw [copyFrom, hc]
      rfl
    | some _ => exact absurd ((checkRange_iff haddr hlen).1 hc) h

theorem copyTo_cases (hf : Fenced arch bound other rest m.mem space) (haddr : address ≠ 0) {source : List Byte}
    (hlen : source ≠ []) :
    (¬ Accessible arch space true address source.length ∧ copyTo arch space m.mem address source = (none, m.mem)) ∨
      (Accessible arch space true address source.length ∧ ∃ s', copyTo arch space m.mem address source = (some (), s') ∧
        Stays arch bound other rest space m space { m with mem := s' } ∧
        space.userByte s' = overlay (space.userByte m.mem) address source) := by
  have hlen : source.length ≠ 0 := fun h => hlen (List.eq_nil_of_length_eq_zero h)
  by_cases h : Accessible arch space true address source.length
  · have hlimit := arch.userAddressLimit_le
    have hlast := (h (address + source.length - 1) (by omega) (by omega)).1
    obtain ⟨hloop, hok⟩ := copyToLoop_eq h (by omega) source.length 0 source m.mem (Nat.le_refl _) (by omega)
    obtain ⟨hstays, hbytes⟩ := writeLoop_stays source.length 0 source hf (Prod.ext hok rfl)
    refine Or.inr ⟨h, _, ?_, hstays, hbytes⟩
    rw [copyTo, (checkRange_iff haddr hlen).2 h]
    exact hloop
  · refine Or.inl ⟨h, ?_⟩
    cases hc : checkRange arch space address source.length true with
    | none => rw [copyTo, hc]
    | some _ => exact absurd ((checkRange_iff haddr hlen).1 hc) h

/-- What a copy from and a copy to user memory are to do. -/
structure ExactCopies (arch : Mm.Arch) (rest : List Nat) (space : AddressSpace) (s : Memory) (address : Nat) : Prop where
  from_iff : ∀ length, length ≠ 0 →
    ((∃ bytes, copyFrom arch space s address length = some bytes) ↔ Accessible arch space false address length)
  from_eq : ∀ length bytes, length ≠ 0 → copyFrom arch space s address length = some bytes →
    bytes.length = length ∧ ∀ i < length, space.userByte s (address + i) = bytes[i]?
  to_iff : ∀ source, source ≠ [] →
    ((copyTo arch space s address source).1 = some () ↔ Accessible arch space true address source.length)
  to_eq : ∀ source s', source ≠ [] → copyTo arch space s address source = (some (), s') →
    space.userByte s' = overlay (space.userByte s) address source ∧ Same rest s s'
  to_none : ∀ source s', source ≠ [] → copyTo arch space s address source = (none, s') → s' = s

/-- **User copies are exact and all-or-nothing.** -/
theorem userCopies_exact (h : Fenced arch bound other rest m.mem space) (haddr : address ≠ 0) :
    ExactCopies arch rest space m.mem address := by
  constructor
  case from_iff =>
    intro length hlen
    rcases copyFrom_cases haddr hlen m.mem with ⟨hno, hc⟩ | ⟨hyes, bytes, hc, -⟩
    · rw [hc]
      exact iff_of_false nofun hno
    · exact iff_of_true ⟨bytes, hc⟩ hyes
  case from_eq =>
    intro length bytes hlen he
    rcases copyFrom_cases haddr hlen m.mem with ⟨-, hc⟩ | ⟨-, bytes', hc, hbytes⟩
    · rw [hc] at he
      cases he
    · rw [hc] at he
      cases he
      exact hbytes
  case to_iff =>
    intro source hlen
    rcases copyTo_cases h haddr hlen with ⟨hno, hc⟩ | ⟨hyes, s', hc, -⟩
    · rw [hc]
      exact iff_of_false nofun hno
    · rw [hc]
      exact iff_of_true rfl hyes
  case to_eq =>
    intro source s' hlen he
    rcases copyTo_cases h haddr hlen with ⟨-, hc⟩ | ⟨-, s'', hc, hstays, hbytes⟩
    · rw [hc] at he
      cases (Prod.mk.inj he).1
    · rw [hc] at he
      cases he
      exact ⟨hbytes, hstays.same⟩
  case to_none =>
    intro source s' hlen he
    rcases copyTo_cases h haddr hlen with ⟨-, hc⟩ | ⟨-, s'', hc, -⟩
    · rw [hc] at he
      cases he
      rfl
    · rw [hc] at he
      cases (Prod.mk.inj he).1

end Copies

/-! ## As signals and the file calls see it -/

section Seen

variable {arch : Mm.Arch} {space : AddressSpace} {s : Memory} {address length : Nat} {write : Bool}

/-- The user part of an address space: its pages by number, and what its addresses hold. -/
def ofSpace (space : AddressSpace) (s : Memory) : Signal.UserMem where
  pages n := (space.pages[n * pageSize]?).map fun page => page.flags.w
  byte va := (space.userByte s va).getD 0

theorem addressLimit_eq : (Signal.port .riscv64).addressLimit = Mm.Arch.userAddressLimit .riscv64 ∧
    (Signal.port .aarch64).addressLimit = Mm.Arch.userAddressLimit .aarch64 ∧
    (Signal.port .x86_64).addressLimit = Mm.Arch.userAddressLimit .x86_64 := ⟨rfl, rfl, rfl⟩

/-- The page of an address, by its number. -/
theorem ofSpace_allowed {w : Nat} : (match (ofSpace space s).pages (w / pageSize) with
      | none => false
      | some writable => !write || writable) = true ↔
    ∃ page, space.pages[pageOf w]? = some page ∧ (write = true → page.flags.w = true) := by
  simp only [ofSpace, div_mul_pageSize]
  cases space.pages[pageOf w]? with
  | none => simp
  | some page => cases write <;> simp

/-- The check by page numbers covers every byte as well. -/
theorem validateRange_ofSpace (hlen : length ≠ 0) :
    (ofSpace space s).validateRange arch.userAddressLimit address length write = true ↔
      Accessible arch space write address length := by
  have hsize : Signal.pageSize = pageSize := rfl
  have hdiv : ∀ w, w / pageSize * pageSize ≤ w ∧ w < (w / pageSize + 1) * pageSize := fun w => by
    unfold pageSize
    omega
  rw [Signal.UserMem.validateRange, if_neg hlen]
  simp only [hsize, Bool.and_eq_true, decide_eq_true_eq, List.all_eq_true, List.mem_range'_1]
  constructor
  · rintro ⟨⟨hstart, hstop⟩, hpages⟩ w hw hw'
    refine ⟨by omega, ofSpace_allowed.1 (hpages (w / pageSize) ?_)⟩
    have hlow := Nat.div_le_div_right (c := pageSize) hw
    have hhigh := Nat.div_le_div_right (c := pageSize) (Nat.le_sub_one_of_lt hw')
    omega
  · intro h
    have hstart := (h address (Nat.le_refl _) (by omega)).1
    have hlast := (h (address + length - 1) (by omega) (by omega)).1
    refine ⟨⟨hstart, by omega⟩, fun n hn => ?_⟩
    -- a byte of the range in the page: its first one, or the first one of the range
    have hbyte : max address (n * pageSize) / pageSize = n ∧ max address (n * pageSize) < address + length := by
      unfold pageSize at hn ⊢
      omega
    have hpage := (h (max address (n * pageSize)) (Nat.le_max_left _ _) hbyte.2).2
    rw [← hbyte.1]
    exact ofSpace_allowed.2 hpage

/-- **One check.** -/
theorem checkRange_ofSpace : (ofSpace space s).checkRange arch.userAddressLimit address length write =
    (checkRange arch space address length write).isSome := by
  by_cases haddr : address = 0
  · simp [Signal.UserMem.checkRange, checkRange, haddr]
  by_cases hlen : length = 0
  · subst hlen
    have hlimit := arch.userAddressLimit_le
    by_cases hlt : address < arch.userAddressLimit
    · simp [Signal.UserMem.checkRange, Signal.UserMem.validateRange, checkRange, AddressSpace.validateRange, haddr, hlt,
        checkedAdd_eq (show address + 0 ≤ usizeMax by omega)]
    · cases hadd : checkedAdd address 0 with
      | none =>
        simp [Signal.UserMem.checkRange, Signal.UserMem.validateRange, checkRange, haddr, hlt, hadd]
      | some stop =>
        obtain ⟨-, rfl⟩ := checkedAdd_some hadd
        simp [Signal.UserMem.checkRange, Signal.UserMem.validateRange, checkRange, AddressSpace.validateRange, haddr, hlt, hadd]
  · rw [Bool.eq_iff_iff, Option.isSome_iff_exists, Signal.UserMem.checkRange, Bool.and_eq_true, validateRange_ofSpace hlen,
      ← checkRange_iff haddr hlen, decide_eq_true_eq]
    exact ⟨fun h => ⟨(), h.2⟩, fun h => ⟨haddr, h.elim fun _ h => h⟩⟩

/-- **A copy from user memory reads it.** -/
theorem copyFrom_ofSpace {bytes : List Byte} (haddr : address ≠ 0) (hlen : length ≠ 0)
    (h : copyFrom arch space s address length = some bytes) : bytes = slice (ofSpace space s).byte address length := by
  rcases copyFrom_cases haddr hlen s with ⟨-, hno⟩ | ⟨-, bytes', hyes, hcount, hbytes⟩
  · rw [hno] at h
    cases h
  · rw [hyes] at h
    cases h
    refine List.ext_getElem? fun i => ?_
    by_cases hi : i < length
    · obtain ⟨b, hb⟩ : ∃ b, bytes[i]? = some b := ⟨_, List.getElem?_eq_getElem (hcount.symm ▸ hi)⟩
      have hbyte : (ofSpace space s).byte (address + i) = b := by
        change (space.userByte s (address + i)).getD 0 = b
        rw [hbytes i hi, hb]
        rfl
      rw [slice, List.getElem?_map, List.getElem?_range hi, Option.map_some, hbyte, hb]
    · rw [List.getElem?_eq_none (by omega), slice, List.getElem?_eq_none (by rw [List.length_map, List.length_range]; omega)]

/-- **A copy to user memory stores its bytes.** -/
theorem copyTo_ofSpace {bound : Nat} {other : List Extent} {rest : List Nat} {m : Machine} {source : List Byte} {s' : Memory}
    (hf : Fenced arch bound other rest m.mem space) (haddr : address ≠ 0) (hne : source ≠ [])
    (h : copyTo arch space m.mem address source = (some (), s')) :
    ofSpace space s' = { ofSpace space m.mem with byte := putList (ofSpace space m.mem).byte address source } := by
  have hbytes := ((userCopies_exact hf haddr).to_eq source s' hne h).1
  have hbyte : (ofSpace space s').byte = putList (ofSpace space m.mem).byte address source := by
    funext w
    change (space.userByte s' w).getD 0 = _
    rw [hbytes, putList]
    unfold overlay
    by_cases hw : address ≤ w ∧ w < address + source.length
    · rw [if_pos hw, blit_of_inside hw.1 hw.2, List.getD_eq_getElem?_getD]
    · rw [if_neg hw, blit_of_outside (by omega)]
      rfl
  rw [← hbyte]
  rfl

end Seen

/-- A machine, a space in it and one page of that space. -/
def samplePage : Option (AddressSpace × Machine) := do
  let (r, m) ← AddressSpace.empty ⟨freshMemory 0x9000, 0⟩
  let space ← r.toOption
  let (r, space, m) ← space.mapZeroed .riscv64 m 0x3000 readWrite
  let _ ← r.toOption
  some (space, m)

theorem samplePage_fenced {space : AddressSpace} {m : Machine} (h : samplePage = some (space, m)) :
    Fenced .riscv64 maxDescriptors [] [] m.mem space := by
  have hpool : Pool maxDescriptors (freshMemory 0x9000).frames [] [] :=
    ⟨(Reach.add .new (by decide) (by decide)
      (show FrameAllocator.addRegion .new 0x1000 0x9000 = some (freshMemory 0x9000).frames from rfl)).inv, by decide⟩
  simp only [samplePage, Option.bind_eq_bind, Option.bind_eq_some_iff] at h
  obtain ⟨⟨r, m₁⟩, hempty, space₁, hr, ⟨r₂, space₂, m₂⟩, hmap, _, -, h⟩ := h
  cases h
  obtain ⟨-, -, ⟨root, rfl, hf⟩ | ⟨⟨e, rfl⟩, -⟩⟩ := empty_fenced (by decide)
    (m := ⟨freshMemory 0x9000, 0⟩) hpool (show UpperEmpty .riscv64 _ from fun _ _ _ => rfl) hempty
  · cases hr
    exact (mapZeroed_stays (by decide) hf hmap).1.fenced
  · cases hr

theorem userCopies_exact_page : ∃ space m, samplePage = some (space, m) ∧ (space.pages[0x3000]?).isSome = true ∧
    ExactCopies .riscv64 [] space m.mem 0x3ffe := by
  have hsome : (samplePage.map fun x => (x.1.pages[0x3000]?).isSome) = some true := by decide +kernel
  obtain ⟨⟨space, m⟩, he, hpage⟩ := Option.map_eq_some_iff.1 hsome
  exact ⟨space, m, he, hpage, userCopies_exact (samplePage_fenced he) (by decide)⟩

end Koros.UserMem
