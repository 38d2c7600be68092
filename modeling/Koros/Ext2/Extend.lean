import Koros.Ext2.Read
import Koros.Ext2.Truncate

/-!
# Making a file shorter and then longer

`truncate_to` frees whole blocks. In the last block that stays, the bytes behind the new end keep what they held, and so
do blocks that lie behind the old size; both come back when the file grows again.

- `byteAt_of_cut`: the bytes after a file got shorter;
- `readsZero_iff`: what reads see of it;
- `extended_reads_zero_iff`: when a file that grows again shows zeros.
-/
set_option autoImplicit false

namespace Koros.Ext2

open Koros.Lib Xattr
open Pointers (Under)

section Extend

variable {fs fs₁ fs₂ fs' : Ext2Fs} {P : Nat → Prop} {n a b : Nat} {r : RawInode}

/-- Whether a truncation to `a` frees a logical block. -/
def CutOff (fs : Ext2Fs) (n a q : Nat) : Prop :=
  a = 0 ∨ divCeil a fs.blockSize % 2 ^ 32 ≤ q ∧ q < divCeil (fs.fileSize n) fs.blockSize % 2 ^ 32

theorem dropped_spotOf (ha : a < fs.fileSize n) {q : Nat} (hne : fs.blockAt n q ≠ 0) :
    Dropped fs n a (spotOf (fs.blockSize / 4) n q) ↔ CutOff fs n a q := by
  unfold Dropped CutOff
  by_cases h0 : a = 0
  · simp [h0]
  · rw [if_neg h0, if_neg (by omega), Tail, or_iff_right h0]
    constructor
    · intro htail
      have hout : ¬ (q < divCeil a fs.blockSize % 2 ^ 32 ∨ divCeil (fs.fileSize n) fs.blockSize % 2 ^ 32 ≤ q) :=
        fun hq => htail ⟨q, hq, hne, .refl _⟩
      omega
    · rintro hq ⟨q', hq', -, hunder⟩
      have := under_spotOf fs hunder
      omega

/-- **The bytes of a file that got shorter.** -/
theorem byteAt_of_cut (ha : a < fs.fileSize n) (htrim : Trimmed P n (Dropped fs n a) fs fs') (j : Nat) :
    (CutOff fs n a (j / fs.blockSize % 2 ^ 32) → fs'.byteAt n j = 0) ∧
      (¬ CutOff fs n a (j / fs.blockSize % 2 ^ 32) → fs'.byteAt n j = fs.byteAt n j) := by
  unfold Ext2Fs.byteAt
  rw [htrim.step.layout.blockSize]
  by_cases hne : fs.blockAt n (j / fs.blockSize % 2 ^ 32) = 0
  · have hzero : fs'.blockAt n (j / fs.blockSize % 2 ^ 32) = 0 := by
      by_cases hdrop : Dropped fs n a (spotOf (fs.blockSize / 4) n (j / fs.blockSize % 2 ^ 32))
      · exact htrim.blockAt_gone hdrop
      · rw [htrim.blockAt_stay hdrop, hne]
    rw [blockData_of_zero hne, blockData_of_zero hzero]
    exact ⟨fun _ => rfl, fun _ => rfl⟩
  · rw [← dropped_spotOf ha hne]
    constructor
    · intro hdrop
      rw [blockData_of_zero (htrim.blockAt_gone hdrop)]
      rfl
    · intro hdrop
      rw [htrim.blockData (htrim.blockAt_stay hdrop)]

/-- Every read of byte `j` gives 0. -/
def ReadsZero (fs : Ext2Fs) (n j : Nat) : Prop :=
  ∀ offset len buf count fs', readAt n offset len fs = .ok (buf, count) fs' → offset ≤ j → j < offset + count →
    buf (j - offset) = 0

theorem readsZero_iff (hs : fs.Sound P) (hr : fs.inodeCache n = some r) (hmaps : r.mapsBlocks fs.sectors = true) {j : Nat}
    (hlt : j < fs.fileSize n) : ReadsZero fs n j ↔ fs.byteAt n j = 0 := by
  constructor
  · intro hreads
    by_cases hne : fs.blockAt n (j / fs.blockSize % 2 ^ 32) = 0
    · rw [Ext2Fs.byteAt, blockData_of_zero hne]
      rfl
    · obtain ⟨buf, hone⟩ := readAt_one hs hr hmaps hlt hne
      obtain ⟨-, -, hbuf⟩ := readAt_ok hs hr hmaps hone
      have hzero := hreads j 1 buf 1 fs hone (Nat.le_refl _) (Nat.lt_succ_self j)
      rw [Nat.sub_self, hbuf 0 Nat.one_pos] at hzero
      exact hzero
  · intro hzero offset len buf count fs' hread hle hin
    obtain ⟨-, -, hbuf⟩ := readAt_ok hs hr hmaps hread
    rw [hbuf _ (by omega), Nat.add_sub_of_le hle, hzero]

/-- The call that makes a file of size `a` one of size `b`, and the bytes that it writes. A write ends where the numbers
of logical blocks have 32 bits. -/
inductive Extends (n a b : Nat) (fs fs' : Ext2Fs) : (Nat → Prop) → Prop
  | truncate {u : PUnit} (hrun : truncate n b fs = .ok u fs') : Extends n a b fs fs' fun _ => False
  | write {offset len count : Nat} {buf : Bytes} (hlen : 0 < len) (hstart : a ≤ offset) (hend : offset + len = b)
      (hfit : b ≤ 2 ^ 32 * fs.blockSize) (hrun : writeAtLocked n offset buf len fs = .ok count fs') :
      Extends n a b fs fs' fun j => offset ≤ j ∧ j < b

/-- Growing keeps the bytes that are not written. -/
theorem Extends.byteAt {covered : Nat → Prop} (h : Extends n a b fs fs' covered) (hs : fs.Sound P)
    (hr : fs.inodeCache n = some r) (hreg : r.fmt = EXT2_S_IFREG) (ha : fs.fileSize n = a) (hab : a < b) :
    fs'.Sound P ∧ (∃ r', fs'.inodeCache n = some r' ∧ r'.fmt = EXT2_S_IFREG) ∧
      ∀ j < b, ¬ covered j → fs'.byteAt n j = fs.byteAt n j := by
  cases h with
  | truncate hrun =>
    obtain ⟨r', hr', hrun⟩ := raw_bind_ok hrun
    rw [hr, Option.some.injEq] at hr'
    subst hr'
    rw [if_neg (not_not.2 hreg)] at hrun
    obtain ⟨htrim, -, -, hcached⟩ := truncateTo_ok hs hr hreg hrun
    have hstay : ∀ z, ¬ Dropped fs n b z := fun z => by
      rw [Dropped, if_neg (by omega), if_pos (by omega)]
      exact not_false
    refine ⟨htrim.sound, hcached, fun j _ _ => ?_⟩
    unfold Ext2Fs.byteAt
    rw [htrim.step.layout.blockSize, htrim.blockData (htrim.blockAt_stay (hstay _))]
  | write hlen hstart hend hfit hrun =>
    obtain ⟨⟨k, fs₁, hwrote, hkept⟩, -, -, r', hr', hfmt⟩ := writeAtLocked_ok hs hr (.inl hreg) hlen (by omega) hrun
    refine ⟨hkept.sound, ⟨r', hr', hfmt.trans hreg⟩, fun j hj hcov => ?_⟩
    have hbs := hkept.step.layout.blockSize.trans hwrote.extended.layout.blockSize
    rw [byteAt_eq_content (by rw [hbs]; omega), byteAt_eq_content (by omega), hkept.content hwrote.sound n,
      hwrote.content, blit_of_outside (by omega)]

/-- **A file that was cut and grows again** shows zeros if and only if the bytes that come back are zeros, or lie in
blocks that the cut has freed. -/
theorem extended_reads_zero_iff (h : fs.Sound fun _ => False) (hr : fs.inodeCache n = some r)
    (hreg : r.fmt = EXT2_S_IFREG) (hab : a < b) (ha : a < fs.fileSize n) {covered : Nat → Prop} {u : PUnit}
    (hcut : truncate n a fs = .ok u fs₁) (hext : Extends n a b fs₁ fs₂ covered) (hsize : fs₂.fileSize n = b) :
    (∀ j, a ≤ j → j < b → ¬ covered j → ReadsZero fs₂ n j) ↔
      ∀ j, a ≤ j → j < b → ¬ covered j → fs.byteAt n j = 0 ∨ CutOff fs n a (j / fs.blockSize % 2 ^ 32) := by
  obtain ⟨r', hr', hcut⟩ := raw_bind_ok hcut
  rw [hr, Option.some.injEq] at hr'
  subst hr'
  rw [if_neg (not_not.2 hreg)] at hcut
  obtain ⟨htrim, hsize₁, -, r₁, hr₁, hreg₁⟩ := truncateTo_ok h hr hreg hcut
  rw [storedSize_of_le (by rw [← fileSize_of_cached hr]; omega)] at hsize₁
  obtain ⟨hs₂, ⟨r₂, hr₂, hreg₂⟩, hbyte⟩ := hext.byteAt htrim.sound hr₁ hreg₁ hsize₁ hab
  refine forall_congr' fun j => forall_congr' fun hlo => forall_congr' fun hhi => forall_congr' fun hcov => ?_
  rw [readsZero_iff hs₂ hr₂ (RawInode.mapsBlocks_of_regular hreg₂ _) (by omega), hbyte j hhi hcov]
  obtain ⟨hgone, hstay⟩ := byteAt_of_cut ha htrim j
  by_cases hoff : CutOff fs n a (j / fs.blockSize % 2 ^ 32)
  · rw [hgone hoff]
    exact iff_of_true rfl (.inr hoff)
  · rw [hstay hoff]
    exact (or_iff_left hoff).symm

end Extend

/-- The two bytes behind the first block are freed with the second one. -/
theorem extended_reads_zero_fileImage : ∃ fs fs₁ fs₂ : Ext2Fs, truncate 1 1024 fs = .ok ⟨⟩ fs₁ ∧
    truncate 1 1026 fs₁ = .ok ⟨⟩ fs₂ ∧ ReadsZero fs₂ 1 1024 ∧ ReadsZero fs₂ 1 1025 := by
  obtain ⟨count, fs, hwrite, hp⟩ := exists_of_endsIn (writeAtLocked 1 1022 (fun _ => 7) 4) fileImage
    (p := fun _ fs => endsIn (fun _ fs₁ => endsIn (fun _ fs₂ => decide (fs₂.fileSize 1 = 1026)) (truncate 1 1026 fs₁))
      (truncate 1 1024 fs)) (by decide +kernel)
  obtain ⟨u, fs₁, hcut, hp⟩ := exists_of_endsIn _ _ hp
  obtain ⟨v, fs₂, hgrow, hp⟩ := exists_of_endsIn _ _ hp
  obtain ⟨⟨k, fs₀, hwrote, hkept⟩, -, hsize, r, hr, hfmt⟩ :=
    writeAtLocked_ok fileImage_sound rfl (.inl (by decide)) (by decide) (by decide) hwrite
  have hsize : fs.fileSize 1 = 1026 := hsize.trans (by decide)
  have hbs : fs.blockSize = 1024 := hkept.step.layout.blockSize.trans hwrote.extended.layout.blockSize
  have hzero := (extended_reads_zero_iff hkept.sound hr (hfmt.trans (by decide)) (by decide) (by rw [hsize]; decide) hcut
    (.truncate hgrow) (of_decide_eq_true hp)).2 fun j hlo hhi _ => .inr (.inr (by
      rw [hsize, hbs, show j / 1024 = 1 by omega]
      decide))
  exact ⟨fs, fs₁, fs₂, hcut, hgrow, hzero 1024 (by decide) (by decide) not_false,
    hzero 1025 (by decide) (by decide) not_false⟩

/-- Four bytes 7 are written; the file is cut to two bytes and grows to four again. -/
theorem stale_byte_read : ∃ fs fs₁ fs₂ : Ext2Fs, (fs.Sound fun _ => False) ∧ fs.fileSize 1 = 4 ∧
    truncate 1 2 fs = .ok ⟨⟩ fs₁ ∧ truncate 1 4 fs₁ = .ok ⟨⟩ fs₂ ∧ fs₂.fileSize 1 = 4 ∧ ¬ ReadsZero fs₂ 1 2 := by
  obtain ⟨count, fs, hwrite, hp⟩ := exists_of_endsIn (writeAtLocked 1 0 (fun _ => 7) 4) fileImage
    (p := fun _ fs => endsIn (fun _ fs₁ => endsIn (fun _ fs₂ => decide (fs₂.fileSize 1 = 4) &&
      endsIn (fun (out : Bytes × Nat) _ => decide (out.1 0 = 7 ∧ out.2 = 1)) (readAt 1 2 1 fs₂)) (truncate 1 4 fs₁))
      (truncate 1 2 fs)) (by decide +kernel)
  obtain ⟨u, fs₁, hcut, hp⟩ := exists_of_endsIn _ _ hp
  obtain ⟨v, fs₂, hgrow, hp⟩ := exists_of_endsIn _ _ hp
  rw [Bool.and_eq_true] at hp
  obtain ⟨⟨buf, c⟩, fs₃, hread, hbuf⟩ := exists_of_endsIn _ _ hp.2
  obtain ⟨hbuf, rfl⟩ := of_decide_eq_true hbuf
  obtain ⟨⟨k, fs₀, hwrote, hkept⟩, -, hsize, -⟩ :=
    writeAtLocked_ok fileImage_sound rfl (.inl (by decide)) (by decide) (by decide) hwrite
  refine ⟨fs, fs₁, fs₂, hkept.sound, hsize.trans (by decide), hcut, hgrow, of_decide_eq_true hp.1, fun hzero => ?_⟩
  have h0 := hzero 2 1 buf 1 fs₃ hread (by decide) (by decide)
  rw [Nat.sub_self] at h0
  exact absurd (h0.symm.trans hbuf) (by decide)

end Koros.Ext2
