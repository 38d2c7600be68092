import Koros.Lib.Bytes

/-!
# Strings and lists of bytes

`str::as_bytes` and `core::str::from_utf8`, which undo each other (`fromUtf8_asBytes`, `asBytes_of_fromUtf8`), and the lists
of bytes that are read from and copied into a buffer.
-/
set_option autoImplicit false

namespace Koros.Lib

/-! ## Strings -/

/-- `str::as_bytes`. -/
def asBytes (s : String) : List Byte := s.toByteArray.data.toList.map (·.toBitVec)

/-- `core::str::from_utf8`. -/
def fromUtf8 (bytes : List Byte) : Option String := String.fromUTF8? ⟨(bytes.map UInt8.ofBitVec).toArray⟩

theorem fromUtf8_asBytes (s : String) : fromUtf8 (asBytes s) = some s := by
  have hbytes : (asBytes s).map UInt8.ofBitVec = s.toByteArray.data.toList := by
    simp [asBytes, Function.comp_def]
  have harr : (⟨((asBytes s).map UInt8.ofBitVec).toArray⟩ : ByteArray) = s.toByteArray := by
    rw [hbytes]
  unfold fromUtf8 String.fromUTF8?
  rw [harr, dif_pos s.isValidUTF8]
  rfl

theorem asBytes_injective : Function.Injective asBytes := by
  intro s t h
  have : some s = some t := by rw [← fromUtf8_asBytes s, h, fromUtf8_asBytes]
  exact Option.some.inj this

/-- What was decoded encodes to the same bytes. -/
theorem asBytes_of_fromUtf8 {bytes : List Byte} {s : String} (h : fromUtf8 bytes = some s) : asBytes s = bytes := by
  unfold fromUtf8 String.fromUTF8? at h
  split at h
  · obtain rfl := Option.some.inj h
    simp [asBytes, String.fromUTF8, Function.comp_def]
  · cases h

/-! ## Parts of a buffer -/

def slice (buf : Bytes) (i n : Nat) : List Byte := (List.range n).map fun k => buf (i + k)

/-- `copy_from_slice` of a list of bytes. -/
def putList (buf : Bytes) (i : Nat) (xs : List Byte) : Bytes := blit buf i xs.length fun k => xs.getD k 0

section Slices

variable {buf b : Bytes} {i n : Nat} {xs : List Byte}

theorem slice_congr (h : ∀ j, i ≤ j → j < i + n → b j = buf j) : slice b i n = slice buf i n := by
  unfold slice
  apply List.map_congr_left
  intro k hk
  have := List.mem_range.1 hk
  exact h (i + k) (by omega) (by omega)

@[simp] theorem length_slice : (slice buf i n).length = n := by simp [slice]

theorem slice_putList : slice (putList buf i xs) i xs.length = xs := by
  apply List.ext_getElem
  · simp
  · intro k h₁ h₂
    have hk : k < xs.length := h₂
    simp [slice, putList, blit, hk]

end Slices

end Koros.Lib
