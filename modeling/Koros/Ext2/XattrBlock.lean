import Mathlib.Data.List.Sort
import Koros.Lib.Text
import Koros.Ext2.Bitmap

/-!
# The extended-attribute block

`kor-ext2/src/xattr.rs`: names with a namespace prefix, and the block that holds the attributes of an inode. Entries
grow up from the header, sorted by name; values grow down from the end of the block; a zero byte in the place of a name
length ends the entries.

The block image is laid out by a loop whose free gap stays zero (`serializeEntries_spec`), so what `parse_block` reads
back is decided entry by entry (`parseEntries_eq_iff`): it is the serialized list exactly when every name has between 1
and 255 bytes (`parse_serialize_iff`).
-/
set_option autoImplicit false

namespace Koros.Ext2.Xattr

open Koros.Lib

def XATTR_MAGIC : Nat := 0xEA020000
def HEADER_SIZE : Nat := 32
def ENTRY_HEADER_SIZE : Nat := 16
def XATTR_PAD : Nat := 4

/-! ## Names -/

def IDX_USER : Byte := 1
def IDX_ACL_ACCESS : Byte := 2
def IDX_ACL_DEFAULT : Byte := 3
def IDX_TRUSTED : Byte := 4
def IDX_SECURITY : Byte := 6
def IDX_SYSTEM : Byte := 7

/-- `str::strip_prefix`. -/
def stripPrefix (s p : String) : Option String := (p.toList.isPrefixOf? s.toList).map String.ofList

/-- A suffix of a namespace must not be empty. -/
def inNamespace (index : Byte) (suffix : String) : Option (Byte × String) :=
  if suffix = "" then none else some (index, suffix)

/-- The on-disk form of a full attribute name. -/
def splitName (full : String) : Option (Byte × String) :=
  match stripPrefix full "user." with
  | some s => inNamespace IDX_USER s
  | none =>
    if full = "system.posix_acl_access" then some (IDX_ACL_ACCESS, "")
    else if full = "system.posix_acl_default" then some (IDX_ACL_DEFAULT, "")
    else
      match stripPrefix full "trusted." with
      | some s => inNamespace IDX_TRUSTED s
      | none =>
        match stripPrefix full "security." with
        | some s => inNamespace IDX_SECURITY s
        | none =>
          match stripPrefix full "system." with
          | some s => inNamespace IDX_SYSTEM s
          | none => none

/-- The full attribute name of an on-disk form. -/
def fullName (index : Byte) (suffix : List Byte) : Option String :=
  if index = IDX_USER then (fromUtf8 suffix).map ("user." ++ ·)
  else if index = IDX_ACL_ACCESS then some "system.posix_acl_access"
  else if index = IDX_ACL_DEFAULT then some "system.posix_acl_default"
  else if index = IDX_TRUSTED then (fromUtf8 suffix).map ("trusted." ++ ·)
  else if index = IDX_SECURITY then (fromUtf8 suffix).map ("security." ++ ·)
  else if index = IDX_SYSTEM then (fromUtf8 suffix).map ("system." ++ ·)
  else none

theorem stripPrefix_eq {s p t : String} (h : stripPrefix s p = some t) : s = p ++ t := by
  obtain ⟨l, hl, rfl⟩ := Option.map_eq_some_iff.1 h
  apply String.toList_injective
  rw [String.toList_append, String.toList_ofList, List.append_eq_of_isPrefixOf?_eq_some hl]

theorem inNamespace_eq {index i : Byte} {s t : String} (h : inNamespace index s = some (i, t)) :
    i = index ∧ t = s ∧ s ≠ "" := by
  unfold inNamespace at h
  split at h
  · cases h
  · rename_i hs
    cases h
    exact ⟨rfl, rfl, hs⟩

/-- **The full name of a split name is the name.** -/
theorem fullName_splitName {full suffix : String} {index : Byte} (h : splitName full = some (index, suffix)) :
    fullName index (asBytes suffix) = some full := by
  unfold splitName at h
  split at h
  · rename_i hs
    obtain ⟨rfl, rfl, -⟩ := inNamespace_eq h
    rw [stripPrefix_eq hs]
    simp [fullName, fromUtf8_asBytes]
  · split at h
    · rename_i hfull
      cases h
      rw [hfull]
      rfl
    · split at h
      · rename_i hfull
        cases h
        rw [hfull]
        rfl
      · split at h
        · rename_i hs
          obtain ⟨rfl, rfl, -⟩ := inNamespace_eq h
          rw [stripPrefix_eq hs]
          simp [fullName, fromUtf8_asBytes, IDX_TRUSTED, IDX_USER, IDX_ACL_ACCESS, IDX_ACL_DEFAULT]
        · split at h
          · rename_i hs
            obtain ⟨rfl, rfl, -⟩ := inNamespace_eq h
            rw [stripPrefix_eq hs]
            simp [fullName, fromUtf8_asBytes, IDX_SECURITY, IDX_TRUSTED, IDX_USER, IDX_ACL_ACCESS, IDX_ACL_DEFAULT]
          · split at h
            · rename_i hs
              obtain ⟨rfl, rfl, -⟩ := inNamespace_eq h
              rw [stripPrefix_eq hs]
              simp [fullName, fromUtf8_asBytes, IDX_SYSTEM, IDX_SECURITY, IDX_TRUSTED, IDX_USER, IDX_ACL_ACCESS,
                IDX_ACL_DEFAULT]
            · cases h

/-! ## Attributes and the block -/

structure Attr where
  index : Byte
  name : List Byte
  value : List Byte
deriving DecidableEq, Repr

/-- The key of an attribute. -/
def Attr.key (a : Attr) : Byte × List Byte := (a.index, a.name)

def nextMultipleOf (n m : Nat) : Nat := (n + m - 1) / m * m

/-- Padded length of an entry. -/
def entryLen (nameLen : Nat) : Nat := nextMultipleOf (ENTRY_HEADER_SIZE + nameLen) XATTR_PAD

def refcount (buf : Bytes) : Nat := leNat buf 4 4

def setRefcount (buf : Bytes) (value : Nat) : Bytes := putLe buf 4 4 value

/-- The loop of `parse_block`; an entry takes more than a byte, so `len` rounds are enough. -/
def parseEntries (buf : Bytes) (len : Nat) : (fuel off : Nat) → Except FsError (List Attr)
  | 0, _ => .ok []
  | fuel + 1, off =>
    if off + ENTRY_HEADER_SIZE > len then .ok []
    else
      let nameLen := (buf off).toNat
      -- a zero entry ends the list
      if nameLen = 0 then .ok []
      else
        let valueOffs := leNat buf (off + 2) 2
        let valueBlock := leNat buf (off + 4) 4
        let valueSize := leNat buf (off + 8) 4
        if valueBlock ≠ 0 then .error .unsupported
        else if off + ENTRY_HEADER_SIZE + nameLen > len ∨ valueOffs + valueSize > len then .error .invalidInput
        else do
          let rest ← parseEntries buf len fuel (off + entryLen nameLen)
          return ⟨buf (off + 1), slice buf (off + ENTRY_HEADER_SIZE) nameLen, slice buf valueOffs valueSize⟩ :: rest

/-- Every attribute of a block of `len` bytes. -/
def parseBlock (buf : Bytes) (len : Nat) : Except FsError (List Attr) :=
  if len < HEADER_SIZE then .error .invalidInput
  else if leNat buf 0 4 ≠ XATTR_MAGIC then .error .invalidInput
  else parseEntries buf len len HEADER_SIZE

/-! ### Hashes -/

def rotateXor (hash : BitVec 32) (shift : Nat) (v : BitVec 32) : BitVec 32 :=
  (hash <<< shift) ^^^ (hash >>> (32 - shift)) ^^^ v

/-- The value as little-endian words, the last one padded with zeros. -/
def valueWords (value : List Byte) : List (BitVec 32) :=
  (List.range ((value.length + 3) / 4)).map fun i => BitVec.ofNat 32 (leNat (fun k => value.getD k 0) (4 * i) 4)

/-- Hash of name and value. -/
def hashEntry (name value : List Byte) : BitVec 32 :=
  let hash := name.foldl (fun h c => rotateXor h 5 (c.zeroExtend 32)) 0
  (valueWords value).foldl (fun h v => rotateXor h 16 v) hash

/-- Hash of the whole block: zero if an entry's hash is. -/
def hashBlock (entryHashes : List (BitVec 32)) : BitVec 32 :=
  if 0 ∈ entryHashes then 0 else entryHashes.foldl (fun h v => rotateXor h 16 v) 0

/-! ### Serializing -/

/-- `a.index.cmp(&b.index).then_with(|| a.name.cmp(&b.name))` is not greater. -/
def AttrLe (a b : Attr) : Prop := a.index < b.index ∨ (a.index = b.index ∧ a.name ≤ b.name)

instance : DecidableRel AttrLe := fun _ _ => inferInstanceAs (Decidable (_ ∨ (_ ∧ _)))

/-- The block while it is filled. -/
structure Layout where
  buf : Bytes
  entryOff : Nat
  valueEnd : Nat

/-- The entry at `off`. -/
def putEntry (buf : Bytes) (off : Nat) (a : Attr) (valueOffs : Nat) : Bytes :=
  let buf := putLe buf off 1 a.name.length
  let buf := putList buf (off + 1) [a.index]
  let buf := putLe buf (off + 2) 2 valueOffs
  let buf := putLe buf (off + 8) 4 a.value.length
  let buf := putLe buf (off + 12) 4 (hashEntry a.name a.value).toNat
  putList buf (off + ENTRY_HEADER_SIZE) a.name

/-- Place an attribute: its value below the values, its entry above the entries. -/
def Layout.place (l : Layout) (a : Attr) : Except FsError Layout :=
  let vpad := nextMultipleOf a.value.length XATTR_PAD
  if a.value.length ≠ 0 ∧ l.valueEnd < HEADER_SIZE + vpad then .error .noSpace
  else
    let valueEnd := if a.value.length = 0 then l.valueEnd else l.valueEnd - vpad
    let valueOffs := if a.value.length = 0 then 0 else valueEnd
    -- room for the terminator too
    if l.entryOff + entryLen a.name.length + XATTR_PAD > valueEnd then .error .noSpace
    else
      let buf := if a.value.length = 0 then l.buf else putList l.buf valueOffs a.value
      .ok ⟨putEntry buf l.entryOff a valueOffs, l.entryOff + entryLen a.name.length, valueEnd⟩

def serializeEntries : List Attr → Layout → Except FsError Layout
  | [], l => .ok l
  | a :: rest, l => do
    let l ← l.place a
    serializeEntries rest l

/-- The header of a block with one reference. -/
def header : Bytes := putLe (putLe (putLe (fun _ => 0) 0 4 XATTR_MAGIC) 4 4 1) 8 4 1

/-- The stable `attrs.sort_by(..)`. -/
def sorted (attrs : List Attr) : List Attr := attrs.insertionSort AttrLe

/-- The image of a block of `blockSize` bytes that holds `attrs`. -/
def serializeBlock (attrs : List Attr) (blockSize : Nat) : Except FsError Bytes := do
  let l ← serializeEntries (sorted attrs) ⟨header, HEADER_SIZE, blockSize⟩
  return putLe l.buf 12 4 (hashBlock ((sorted attrs).map fun a => hashEntry a.name a.value)).toNat

/-! ## What is read back -/

section Layouts

variable {buf b : Bytes} {off len : Nat} {a : Attr}

theorem le_nextMultipleOf (n : Nat) : n ≤ nextMultipleOf n XATTR_PAD := by
  simp only [nextMultipleOf, XATTR_PAD]
  omega

theorem lt_entryLen (n : Nat) : ENTRY_HEADER_SIZE + n ≤ entryLen n := le_nextMultipleOf _

/-- The bytes of an entry, as `serialize_block` writes them: only the low byte of the name's length is kept. -/
structure EntryAt (buf : Bytes) (len off : Nat) (a : Attr) : Prop where
  fits : off + entryLen a.name.length ≤ len
  nameLen : (buf off).toNat = a.name.length % 256
  index : buf (off + 1) = a.index
  valueBlock : leNat buf (off + 4) 4 = 0
  valueSize : leNat buf (off + 8) 4 = a.value.length
  name : slice buf (off + ENTRY_HEADER_SIZE) a.name.length = a.name
  valueFits : leNat buf (off + 2) 2 + a.value.length ≤ len
  value : slice buf (leNat buf (off + 2) 2) a.value.length = a.value
  above : a.value.length = 0 ∨ HEADER_SIZE ≤ leNat buf (off + 2) 2

/-- Entries one after another, and a zero byte where the next one would start. -/
def Laid (buf : Bytes) (len : Nat) : (off : Nat) → List Attr → Prop
  | off, [] => off + ENTRY_HEADER_SIZE ≤ len → buf off = 0
  | off, a :: rest => EntryAt buf len off a ∧ Laid buf len (off + entryLen a.name.length) rest

/-- A name whose length fits the byte that holds it, and is not the terminator. -/
def GoodName (name : List Byte) : Prop := 1 ≤ name.length ∧ name.length ≤ 255

instance (name : List Byte) : Decidable (GoodName name) := by unfold GoodName; infer_instance

theorem goodName_iff {name : List Byte} : GoodName name ↔ name.length % 256 ≠ 0 ∧ name.length % 256 = name.length := by
  unfold GoodName
  omega

/-- An entry with a good name is read back, and the rest decides. -/
theorem parseEntries_good (h : EntryAt buf len off a) (hg : GoodName a.name) (fuel : Nat) :
    parseEntries buf len (fuel + 1) off =
      (parseEntries buf len fuel (off + entryLen a.name.length)).map (a :: ·) := by
  have hbyte : (buf off).toNat = a.name.length := h.nameLen.trans (goodName_iff.1 hg).2
  have hne : a.name.length ≠ 0 := by
    have := hg.1
    omega
  have hlen := lt_entryLen a.name.length
  have hfits := h.fits
  have hout : ¬ off + ENTRY_HEADER_SIZE > len := by
    simp only [ENTRY_HEADER_SIZE] at *
    omega
  have hroom : ¬ (off + ENTRY_HEADER_SIZE + a.name.length > len ∨
      leNat buf (off + 2) 2 + a.value.length > len) := by
    have := h.valueFits
    omega
  rw [parseEntries, if_neg hout]
  simp only [hbyte, h.valueBlock, ne_eq, not_true_eq_false, if_false, if_neg hne, if_neg hroom, h.valueSize, h.name,
    h.value, h.index]
  cases parseEntries buf len fuel (off + entryLen a.name.length) <;> rfl

/-- An entry with another name is not. -/
theorem parseEntries_bad (h : EntryAt buf len off a) (hg : ¬ GoodName a.name) (fuel : Nat) (rest : List Attr) :
    parseEntries buf len (fuel + 1) off ≠ .ok (a :: rest) := by
  intro hok
  rw [parseEntries] at hok
  split at hok
  · cases hok
  · simp only [] at hok
    split at hok
    · cases hok
    · rename_i hne
      rw [h.nameLen] at hne
      split at hok
      · cases hok
      · split at hok
        · cases hok
        · cases hrest : parseEntries buf len fuel (off + entryLen (buf off).toNat) with
          | error e =>
            rw [hrest] at hok
            cases hok
          | ok l =>
            rw [hrest] at hok
            -- the name that was read is as long as the low byte says
            have hhead := List.head_eq_of_cons_eq (Except.ok.inj hok)
            have hname := congrArg (fun x : Attr => x.name.length) hhead
            simp only [length_slice, h.nameLen] at hname
            exact hg (goodName_iff.2 ⟨hne, hname⟩)

theorem parseEntries_nil (h : off + ENTRY_HEADER_SIZE ≤ len → buf off = 0) (fuel : Nat) :
    parseEntries buf len fuel off = .ok [] := by
  cases fuel with
  | zero => rfl
  | succ fuel =>
    rw [parseEntries]
    split
    · rfl
    · rename_i hin
      simp [h (by omega)]

/-- **Laid-out entries are read back exactly when all their names are good.** -/
theorem parseEntries_eq_iff (attrs : List Attr) : ∀ {off fuel : Nat}, Laid buf len off attrs → len ≤ off + fuel →
    (parseEntries buf len fuel off = .ok attrs ↔ ∀ a ∈ attrs, GoodName a.name) := by
  induction attrs with
  | nil =>
    intro off fuel h _
    simp [parseEntries_nil h fuel]
  | cons a rest ih =>
    intro off fuel h hfuel
    obtain ⟨hentry, hrest⟩ := h
    have hlen := lt_entryLen a.name.length
    have hfits := hentry.fits
    simp only [ENTRY_HEADER_SIZE] at hlen
    obtain ⟨fuel, rfl⟩ : ∃ k, fuel = k + 1 := ⟨fuel - 1, by omega⟩
    by_cases hg : GoodName a.name
    · rw [parseEntries_good hentry hg, List.forall_mem_cons, ← ih hrest (show len ≤ _ + fuel by omega)]
      cases parseEntries buf len fuel (off + entryLen a.name.length) with
      | error e => simp [Except.map]
      | ok l => simp [Except.map, hg]
    · constructor
      · intro hok
        exact absurd hok (parseEntries_bad hentry hg fuel rest)
      · intro hall
        exact absurd (hall a (List.mem_cons_self ..)) hg

/-- Only good names are ever read. -/
theorem parseEntries_goodName (fuel : Nat) : ∀ {off : Nat} {attrs : List Attr},
    parseEntries buf len fuel off = .ok attrs → ∀ a ∈ attrs, GoodName a.name := by
  induction fuel with
  | zero =>
    intro off attrs h a ha
    cases h
    cases ha
  | succ fuel ih =>
    intro off attrs h a ha
    rw [parseEntries] at h
    split at h
    · cases h
      cases ha
    · simp only [] at h
      split at h
      · cases h
        cases ha
      · rename_i hne
        split at h
        · cases h
        · split at h
          · cases h
          · cases hrest : parseEntries buf len fuel (off + entryLen (buf off).toNat) with
            | error e =>
              rw [hrest] at h
              cases h
            | ok rest =>
              rw [hrest] at h
              obtain rfl := Except.ok.inj h
              rcases List.mem_cons.1 ha with rfl | ha
              · have hlt := (buf off).isLt
                simp only [GoodName, length_slice]
                omega
              · exact ih hrest a ha

theorem parseBlock_goodName {attrs : List Attr} (h : parseBlock buf len = .ok attrs) : ∀ a ∈ attrs, GoodName a.name := by
  unfold parseBlock at h
  split at h
  · cases h
  · split at h
    · cases h
    · exact parseEntries_goodName len h

/-! ## What is laid out -/

/-- An entry only reads its own bytes and those of its value. -/
theorem EntryAt.congr (h : EntryAt buf len off a)
    (hentry : ∀ j, off ≤ j → j < off + entryLen a.name.length → b j = buf j)
    (hvalue : ∀ j, leNat buf (off + 2) 2 ≤ j → j < leNat buf (off + 2) 2 + a.value.length → b j = buf j) :
    EntryAt b len off a := by
  have hlen := lt_entryLen a.name.length
  simp only [ENTRY_HEADER_SIZE] at hlen
  have hoffs : leNat b (off + 2) 2 = leNat buf (off + 2) 2 :=
    leNat_congr fun j h₁ h₂ => hentry j (by omega) (by omega)
  refine ⟨h.fits, ?_, ?_, ?_, ?_, ?_, ?_, ?_, ?_⟩
  · rw [hentry off (Nat.le_refl _) (by omega)]
    exact h.nameLen
  · rw [hentry (off + 1) (by omega) (by omega)]
    exact h.index
  · rw [leNat_congr fun j h₁ h₂ => hentry j (by omega) (by omega)]
    exact h.valueBlock
  · rw [leNat_congr fun j h₁ h₂ => hentry j (by omega) (by omega)]
    exact h.valueSize
  · rw [slice_congr fun j h₁ h₂ => hentry j (by simp only [ENTRY_HEADER_SIZE] at h₁; omega)
      (by simp only [ENTRY_HEADER_SIZE] at h₂; omega)]
    exact h.name
  · rw [hoffs]
    exact h.valueFits
  · rw [hoffs, slice_congr hvalue]
    exact h.value
  · rw [hoffs]
    exact h.above

theorem putEntry_outside {valueOffs j : Nat} (h : j < off ∨ off + entryLen a.name.length ≤ j) :
    putEntry buf off a valueOffs j = buf j := by
  have hlen := lt_entryLen a.name.length
  simp only [ENTRY_HEADER_SIZE] at hlen
  unfold putEntry putList putLe
  simp only [ENTRY_HEADER_SIZE]
  rw [blit_of_outside (by omega), blit_of_outside (by omega), blit_of_outside (by omega), blit_of_outside (by omega),
    blit_of_outside (by simp only [List.length_singleton]; omega), blit_of_outside (by omega)]

theorem putEntry_offs {valueOffs : Nat} (hoffs : valueOffs < 2 ^ 16) :
    leNat (putEntry buf off a valueOffs) (off + 2) 2 = valueOffs := by
  unfold putEntry putList
  simp only [ENTRY_HEADER_SIZE]
  rw [leNat_blit_of_disjoint (by omega), leNat_putLe_of_disjoint _ (by omega), leNat_putLe_of_disjoint _ (by omega),
    leNat_putLe_of_lt (by simpa using hoffs)]

/-- The entry that `putEntry` writes over zeros. -/
theorem putEntry_entryAt {valueOffs : Nat} (hfits : off + entryLen a.name.length ≤ len)
    (hzero : leNat buf (off + 4) 4 = 0) (hoffs : valueOffs < 2 ^ 16) (hsize : a.value.length < 2 ^ 32)
    (hvfits : valueOffs + a.value.length ≤ len) (hvalue : slice buf valueOffs a.value.length = a.value)
    (hdisj : a.value.length = 0 ∨ off + entryLen a.name.length ≤ valueOffs)
    (habove : a.value.length = 0 ∨ HEADER_SIZE ≤ valueOffs) :
    EntryAt (putEntry buf off a valueOffs) len off a := by
  have hlen := lt_entryLen a.name.length
  simp only [ENTRY_HEADER_SIZE] at hlen
  have hat : leNat (putEntry buf off a valueOffs) (off + 2) 2 = valueOffs := putEntry_offs hoffs
  refine ⟨hfits, ?_, ?_, ?_, ?_, ?_, ?_, ?_, ?_⟩
  · unfold putEntry putList putLe
    simp only [ENTRY_HEADER_SIZE]
    rw [blit_of_outside (by omega), blit_of_outside (by omega), blit_of_outside (by omega), blit_of_outside (by omega),
      blit_of_outside (by omega), blit_of_inside (by omega) (by omega)]
    simp [toLe]
  · unfold putEntry putList putLe
    simp only [ENTRY_HEADER_SIZE]
    rw [blit_of_outside (by omega), blit_of_outside (by omega), blit_of_outside (by omega), blit_of_outside (by omega),
      blit_of_inside (by omega) (by simp)]
    simp
  · unfold putEntry putList
    simp only [ENTRY_HEADER_SIZE]
    rw [leNat_blit_of_disjoint (by omega), leNat_putLe_of_disjoint _ (by omega), leNat_putLe_of_disjoint _ (by omega),
      leNat_putLe_of_disjoint _ (by omega), leNat_blit_of_disjoint (by simp only [List.length_singleton]; omega),
      leNat_putLe_of_disjoint _ (by omega), hzero]
  · unfold putEntry putList
    simp only [ENTRY_HEADER_SIZE]
    rw [leNat_blit_of_disjoint (by omega), leNat_putLe_of_disjoint _ (by omega),
      leNat_putLe_of_lt (by simpa using hsize)]
  · unfold putEntry
    exact slice_putList
  · rw [hat]
    exact hvfits
  · have hframe : ∀ j, valueOffs ≤ j → j < valueOffs + a.value.length → putEntry buf off a valueOffs j = buf j := by
      intro j h₁ h₂
      exact putEntry_outside (by omega)
    rw [hat, slice_congr hframe, hvalue]
  · rw [hat]
    exact habove

end Layouts

/-- The free gap of a layout is zero, with room for the terminator. -/
structure Layout.Clear (l : Layout) (len : Nat) : Prop where
  room : l.entryOff + XATTR_PAD ≤ l.valueEnd
  inside : l.valueEnd ≤ len
  zero : ∀ j, l.entryOff ≤ j → j < l.valueEnd → l.buf j = 0

/-- Placing an attribute fills the gap from both ends. -/
theorem Layout.place_spec {l m : Layout} {a : Attr} {len : Nat} (hclear : l.Clear len) (hlen : len ≤ 2 ^ 16)
    (h : l.place a = .ok m) :
    m.Clear len ∧ m.entryOff = l.entryOff + entryLen a.name.length ∧ m.valueEnd ≤ l.valueEnd ∧
    EntryAt m.buf len l.entryOff a ∧
    (a.value.length = 0 ∨ m.valueEnd ≤ leNat m.buf (l.entryOff + 2) 2) ∧
    ∀ j, j < l.entryOff ∨ l.valueEnd ≤ j → m.buf j = l.buf j := by
  obtain ⟨hroom, hinside, hzero⟩ := hclear
  have helen := lt_entryLen a.name.length
  have hvpad := le_nextMultipleOf a.value.length
  simp only [ENTRY_HEADER_SIZE, XATTR_PAD] at helen hvpad hroom
  have hgap : ∀ {p n : Nat}, l.entryOff ≤ p → p + n ≤ l.valueEnd → leNat l.buf p n = 0 := by
    intro p n h₁ h₂
    rw [← @leNat_zero p n]
    exact leNat_congr fun j hj₁ hj₂ => hzero j (by omega) (by omega)
  by_cases hv : a.value.length = 0
  · simp only [Layout.place, hv, ne_eq, not_true_eq_false, false_and, if_false, if_true, XATTR_PAD] at h
    split at h
    · cases h
    · rename_i hfit
      obtain rfl := Except.ok.inj h
      have hentry : EntryAt (putEntry l.buf l.entryOff a 0) len l.entryOff a :=
        putEntry_entryAt (by omega) (hgap (by omega) (by omega)) (by omega) (by omega) (by omega)
          (by rw [List.length_eq_zero_iff.1 hv]; rfl) (.inl hv) (.inl hv)
      refine ⟨⟨by simp only [XATTR_PAD]; omega, hinside, fun j h₁ h₂ => ?_⟩, rfl, Nat.le_refl _, hentry, .inl hv,
        fun j hj => ?_⟩
      · have hput : putEntry l.buf l.entryOff a 0 j = l.buf j := putEntry_outside (.inr h₁)
        exact hput.trans (hzero j (by simp only [] at h₁; omega) h₂)
      · exact putEntry_outside (by omega)
  · simp only [Layout.place, hv, ne_eq, not_false_eq_true, true_and, if_false, HEADER_SIZE, XATTR_PAD] at h
    split at h
    · cases h
    · rename_i hvfit
      split at h
      · cases h
      · rename_i hfit
        obtain rfl := Except.ok.inj h
        generalize hve : l.valueEnd - nextMultipleOf a.value.length 4 = valueEnd at *
        have hput : ∀ {p n : Nat}, p + n ≤ valueEnd → leNat (putList l.buf valueEnd a.value) p n = leNat l.buf p n :=
          fun h => leNat_blit_of_disjoint (.inl h)
        have hentry : EntryAt (putEntry (putList l.buf valueEnd a.value) l.entryOff a valueEnd) len l.entryOff a :=
          putEntry_entryAt (by omega) ((hput (by omega)).trans (hgap (by omega) (by omega))) (by omega) (by omega)
            (by omega) slice_putList (.inr (by omega)) (.inr (by simp only [HEADER_SIZE]; omega))
        have hframe : ∀ {j : Nat}, j < l.entryOff ∨ l.entryOff + entryLen a.name.length ≤ j →
            j < valueEnd ∨ valueEnd + a.value.length ≤ j →
            putEntry (putList l.buf valueEnd a.value) l.entryOff a valueEnd j = l.buf j := by
          intro j h₁ h₂
          rw [putEntry_outside h₁]
          exact blit_of_outside h₂
        refine ⟨⟨by simp only [XATTR_PAD]; omega, by simp only []; omega, fun j h₁ h₂ => ?_⟩, rfl, by simp only []; omega,
          hentry, .inr ?_, fun j hj => hframe (by omega) (by omega)⟩
        · simp only [] at h₁ h₂
          exact (hframe (.inr h₁) (.inl h₂)).trans (hzero j (by omega) (by omega))
        · have hoffs : valueEnd < 2 ^ 16 := by omega
          exact Nat.le_of_eq (putEntry_offs hoffs).symm

/-- **The loop of `serialize_block`** lays its attributes out, and touches nothing outside the gap. -/
theorem serializeEntries_spec {len : Nat} (hlen : len ≤ 2 ^ 16) (attrs : List Attr) : ∀ {l m : Layout}, l.Clear len →
    serializeEntries attrs l = .ok m →
    Laid m.buf len l.entryOff attrs ∧ ∀ j, j < l.entryOff ∨ l.valueEnd ≤ j → m.buf j = l.buf j := by
  induction attrs with
  | nil =>
    intro l m hclear h
    obtain rfl := Except.ok.inj h
    have hroom := hclear.room
    simp only [XATTR_PAD] at hroom
    exact ⟨fun _ => hclear.zero _ (Nat.le_refl _) (by omega), fun _ _ => rfl⟩
  | cons a rest ih =>
    intro l m hclear h
    unfold serializeEntries at h
    cases hp : l.place a with
    | error e =>
      rw [hp] at h
      cases h
    | ok l₁ =>
      rw [hp] at h
      obtain ⟨hclear₁, hoff, hend, hentry, hvalue, hframe⟩ := l.place_spec hclear hlen hp
      obtain ⟨hlaid, hframe₁⟩ := ih hclear₁ h
      have hroom := hclear₁.room
      simp only [XATTR_PAD] at hroom
      rw [hoff] at hlaid
      refine ⟨⟨hentry.congr (fun j h₁ h₂ => hframe₁ j (.inl (by omega))) fun j h₁ h₂ => ?_, hlaid⟩, fun j hj => ?_⟩
      · rcases hvalue with hv | hv
        · omega
        · exact hframe₁ j (.inr (by omega))
      · rw [hframe₁ j (by omega), hframe j hj]

/-- The header does not reach the entries. -/
theorem header_zero {j : Nat} (h : HEADER_SIZE ≤ j) : header j = 0 := by
  simp only [HEADER_SIZE] at h
  unfold header putLe
  rw [blit_of_outside (by omega), blit_of_outside (by omega), blit_of_outside (by omega)]

theorem sorted_perm (attrs : List Attr) : (sorted attrs).Perm attrs := List.perm_insertionSort _ _

/-- A laid-out list does not depend on the header. -/
theorem Laid.congr {buf b : Bytes} {len : Nat} (hagree : ∀ j, HEADER_SIZE ≤ j → b j = buf j) (attrs : List Attr) :
    ∀ {off : Nat}, HEADER_SIZE ≤ off → Laid buf len off attrs → Laid b len off attrs := by
  induction attrs with
  | nil =>
    intro off hoff h hin
    rw [hagree off hoff]
    exact h hin
  | cons a rest ih =>
    rintro off hoff ⟨hentry, hrest⟩
    refine ⟨hentry.congr (fun j h₁ _ => hagree j (by omega)) fun j h₁ h₂ => hagree j ?_, ih (by omega) hrest⟩
    have := hentry.above
    omega

/-- The image of a block: its entries lie behind a header with one reference. -/
theorem serializeBlock_spec {attrs : List Attr} {blockSize : Nat} {img : Bytes} (hmin : 1024 ≤ blockSize)
    (hmax : blockSize ≤ 2 ^ 16) (h : serializeBlock attrs blockSize = .ok img) :
    Laid img blockSize HEADER_SIZE (sorted attrs) ∧ ∀ p n, p + n ≤ 12 → leNat img p n = leNat header p n := by
  unfold serializeBlock at h
  cases hs : serializeEntries (sorted attrs) ⟨header, HEADER_SIZE, blockSize⟩ with
  | error e =>
    rw [hs] at h
    cases h
  | ok l =>
    rw [hs] at h
    obtain rfl := Except.ok.inj h
    have hclear : Layout.Clear ⟨header, HEADER_SIZE, blockSize⟩ blockSize :=
      ⟨by simp only [HEADER_SIZE, XATTR_PAD]; omega, Nat.le_refl _, fun j h₁ _ => header_zero h₁⟩
    obtain ⟨hlaid, hframe⟩ := serializeEntries_spec hmax _ hclear hs
    simp only [HEADER_SIZE] at hlaid hframe
    -- the block hash is part of the header
    generalize (hashBlock _).toNat = hash
    refine ⟨hlaid.congr (fun j hj => ?_) _ (Nat.le_refl 32), fun p n hp => ?_⟩
    · simp only [HEADER_SIZE] at hj
      exact blit_of_outside (.inr (by omega))
    · rw [leNat_putLe_of_disjoint _ (.inl hp)]
      exact leNat_congr fun j _ h₂ => hframe j (.inl (by omega))

/-- **`parse_block` and `serialize_block`.** A block that `serialize_block` accepts is read back as the sorted attributes
exactly when every name has between 1 and 255 bytes. -/
theorem parse_serialize_iff {attrs : List Attr} {blockSize : Nat} {img : Bytes} (hmin : 1024 ≤ blockSize)
    (hmax : blockSize ≤ 2 ^ 16) (h : serializeBlock attrs blockSize = .ok img) :
    (parseBlock img blockSize = .ok (sorted attrs) ↔ ∀ a ∈ attrs, GoodName a.name) ∧ refcount img = 1 := by
  obtain ⟨hlaid, hlow⟩ := serializeBlock_spec hmin hmax h
  refine ⟨?_, ?_⟩
  · rw [parseBlock, if_neg (by simp only [HEADER_SIZE]; omega), hlow 0 4 (by omega)]
    rw [if_neg (by decide), parseEntries_eq_iff _ hlaid (by omega)]
    exact forall_congr' fun a => by rw [(sorted_perm attrs).mem_iff]
  · rw [refcount, hlow 4 4 (by omega)]
    decide

end Koros.Ext2.Xattr
