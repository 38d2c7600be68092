import Koros.Ext2.Bitmap

/-!
# Running calls, and the bitmap search

How a sequence of calls runs, and the byte-wise search for a clear bit: it finds one of the valid part
(`findFirstClear_eq_some`), and fails only when the valid part is full (`findFirstClear_eq_none`).
-/
set_option autoImplicit false

namespace Koros.Ext2

open Koros.Lib

/-! ## Running calls -/

section Run

variable {α β : Type} {x : FsM α} {f : α → FsM β} {fs fs' fs'' : Ext2Fs} {a : α} {b : β}

theorem bind_ok (h : x fs = .ok a fs') : (x >>= f) fs = f a fs' := by
  show EStateM.bind x f fs = _
  rw [EStateM.bind, h]

theorem bind_error {e : Fault} (h : x fs = .error e fs') : (x >>= f) fs = .error e fs' := by
  show EStateM.bind x f fs = _
  rw [EStateM.bind, h]

theorem bind_eq_ok (h : (x >>= f) fs = .ok b fs'') : ∃ a fs', x fs = .ok a fs' ∧ f a fs' = .ok b fs'' := by
  cases hx : x fs with
  | ok a fs' =>
    rw [bind_ok hx] at h
    exact ⟨a, fs', rfl, h⟩
  | error e fs' =>
    rw [bind_error hx] at h
    cases h

theorem get_bind (f : Ext2Fs → FsM β) (fs : Ext2Fs) : (get >>= f) fs = f fs fs := rfl

theorem set_bind (fs₁ : Ext2Fs) (f : PUnit → FsM β) (fs : Ext2Fs) : (set fs₁ >>= f) fs = f ⟨⟩ fs₁ := rfl

theorem readFsBlock_eq {n : Nat} (h : n < fs.deviceBlocks) : readFsBlock n fs = .ok (fs.disk n) fs := by
  rw [readFsBlock, get_bind, if_pos h]
  rfl

theorem writeFsBlock_eq {n : Nat} (hro : fs.readOnly = false) (h : n < fs.deviceBlocks) (buf : Bytes) :
    writeFsBlock n buf fs = .ok ⟨⟩ (fs.setDisk n buf) := by
  rw [writeFsBlock, get_bind, if_neg (by simp [hro]), if_pos h]
  rfl

end Run

/-! ## The search -/

section Scan

variable {data : Bytes} {size : Nat}

theorem scanByte_spec (byte : Byte) (base size : Nat) : ∀ bits : List Nat,
    match Bitmap.scanByte byte base size bits with
    | none => ∀ b ∈ bits, base + b < size ∧ byte.getLsbD b = true
    | some none => ∃ pre b post, bits = pre ++ b :: post ∧ size ≤ base + b ∧ ∀ c ∈ pre, byte.getLsbD c = true
    | some (some j) => ∃ b ∈ bits, j = base + b ∧ j < size ∧ byte.getLsbD b = false
  | [] => fun _ h => by cases h
  | b :: bits => by
    have ih := scanByte_spec byte base size bits
    unfold Bitmap.scanByte
    by_cases hs : base + b ≥ size
    · rw [if_pos hs]
      exact ⟨[], b, bits, rfl, hs, List.forall_mem_nil _⟩
    rw [if_neg hs]
    by_cases hb : byte.getLsbD b
    · rw [if_pos hb]
      revert ih
      cases Bitmap.scanByte byte base size bits with
      | none =>
        intro ih c hc
        rcases List.mem_cons.1 hc with rfl | hc
        · exact ⟨Nat.lt_of_not_le hs, hb⟩
        · exact ih c hc
      | some r =>
        cases r with
        | none =>
          rintro ⟨pre, c, post, rfl, hc, hpre⟩
          refine ⟨b :: pre, c, post, rfl, hc, fun d hd => ?_⟩
          rcases List.mem_cons.1 hd with rfl | hd
          · exact hb
          · exact hpre d hd
        | some j =>
          rintro ⟨c, hc, hj⟩
          exact ⟨c, List.mem_cons_of_mem _ hc, hj⟩
    · rw [if_neg hb]
      exact ⟨b, List.mem_cons_self .., rfl, Nat.lt_of_not_le hs, by simpa using hb⟩

theorem testBitAt_byte (data : Bytes) (i : Nat) {b : Nat} (hb : b < 8) :
    testBitAt data (i * 8 + b) = (data i).getLsbD b := by
  rw [testBitAt, show (i * 8 + b) / 8 = i by omega, show (i * 8 + b) % 8 = b by omega]

/-- A bit below the first invalid one is set when the scan of its byte stopped there. -/
theorem mem_pre_of_lt {pre post : List Nat} {b c : Nat} (h : List.range 8 = pre ++ b :: post) (hc : c < b) : c ∈ pre := by
  have hb : b ∈ List.range 8 := by rw [h]; simp
  have hmem : c ∈ List.range 8 := List.mem_range.2 (by have := List.mem_range.1 hb; omega)
  rw [h, List.mem_append, List.mem_cons] at hmem
  rcases hmem with hmem | rfl | hmem
  · exact hmem
  · omega
  · have hsorted : (List.range 8).Pairwise (· < ·) := List.pairwise_lt_range
    rw [h, List.pairwise_append] at hsorted
    have := (List.pairwise_cons.1 hsorted.2.1).1 c hmem
    omega

theorem getLsbD_of_all_set {byte : Byte} (h : byte = 0xFF) {b : Nat} (hb : b < 8) : byte.getLsbD b = true := by
  subst h
  revert b
  decide

theorem scan_spec : ∀ (n i : Nat),
    match Bitmap.scan data size n i with
    | some j => j < size ∧ j / 8 < i + n ∧ testBitAt data j = false
    | none => ∀ j, i ≤ j / 8 → j / 8 < i + n → j < size → testBitAt data j = true
  | 0, i => fun j h₁ h₂ => by omega
  | n + 1, i => by
    have ih := scan_spec n (i + 1)
    -- what the rest of the scan says of all bytes, once byte `i` is known to be full
    have hrest : (∀ j, j / 8 = i → j < size → testBitAt data j = true) →
        match Bitmap.scan data size n (i + 1) with
        | some j => j < size ∧ j / 8 < i + (n + 1) ∧ testBitAt data j = false
        | none => ∀ j, i ≤ j / 8 → j / 8 < i + (n + 1) → j < size → testBitAt data j = true := by
      intro hfull
      revert ih
      cases Bitmap.scan data size n (i + 1) with
      | some j => exact fun ih => ⟨ih.1, by omega, ih.2.2⟩
      | none =>
        intro ih j h₁ h₂ h₃
        rcases Nat.eq_or_lt_of_le h₁ with h | h
        · exact hfull j h.symm h₃
        · exact ih j h (by omega) h₃
    have hbyte : ∀ j, j / 8 = i → testBitAt data j = (data i).getLsbD (j % 8) := fun j hj => by rw [testBitAt, hj]
    unfold Bitmap.scan
    by_cases hff : data i ≠ 0xFF
    · rw [if_pos hff]
      have hspec := scanByte_spec (data i) (i * 8) size (List.range 8)
      revert hspec
      cases Bitmap.scanByte (data i) (i * 8) size (List.range 8) with
      | none =>
        intro hspec
        refine hrest fun j hj _ => ?_
        rw [hbyte j hj]
        exact (hspec (j % 8) (List.mem_range.2 (Nat.mod_lt _ (by decide)))).2
      | some r =>
        cases r with
        | none =>
          rintro ⟨pre, b, post, hpre, hb, hset⟩ j h₁ h₂ h₃
          have hb8 : b < 8 := List.mem_range.1 (by rw [hpre]; simp)
          have hj : j / 8 = i := by omega
          rw [hbyte j hj]
          exact hset _ (mem_pre_of_lt hpre (by omega))
        | some j =>
          rintro ⟨b, hb, rfl, hlt, hclear⟩
          have hb8 := List.mem_range.1 hb
          exact ⟨hlt, by omega, by rw [testBitAt_byte data i hb8]; exact hclear⟩
    · rw [if_neg hff]
      refine hrest fun j hj _ => ?_
      rw [hbyte j hj]
      exact getLsbD_of_all_set (not_not.1 hff) (Nat.mod_lt _ (by decide))

variable {m : Bitmap}

theorem findFirstClear_eq_some {j : Nat} (h : m.findFirstClear = some j) :
    j < m.size ∧ j / 8 < m.len ∧ m.bit j = false := by
  have := @scan_spec m.data m.size m.len 0
  rw [show Bitmap.scan m.data m.size m.len 0 = some j from h, Nat.zero_add] at this
  exact this

theorem findFirstClear_eq_none (h : m.findFirstClear = none) {j : Nat} (hj : j < m.size) (hlen : j / 8 < m.len) :
    m.bit j = true := by
  have := @scan_spec m.data m.size m.len 0
  rw [show Bitmap.scan m.data m.size m.len 0 = none from h, Nat.zero_add] at this
  exact this j (Nat.zero_le _) hlen hj

end Scan

end Koros.Ext2
