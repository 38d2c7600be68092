import Koros.Ext2.Ops

/-!
# What a call that succeeded did

For every primitive of the filesystem: the state it leaves when it returns a result. Nothing is said of calls that fail, and
the free counters need not be right, so that these facts hold wherever the geometry does.
-/
set_option autoImplicit false

namespace Koros.Ext2

open Koros.Lib Xattr

variable {fs fs' : Ext2Fs} {α β : Type}

/-! ## Branches -/

theorem fail_ne_ok {e : FsError} {a : α} : (fail e : FsM α) fs ≠ .ok a fs' := by
  intro h
  cases h

theorem panic_ne_ok {a : α} : (panic : FsM α) fs ≠ .ok a fs' := by
  intro h
  cases h

theorem pure_eq_ok {a b : α} (h : (pure a : FsM α) fs = .ok b fs') : b = a ∧ fs' = fs := by
  cases h
  exact ⟨rfl, rfl⟩

/-- A check that fails the call. -/
theorem ite_fail_ok {p : Prop} [Decidable p] {e : FsError} {x : FsM α} {a : α}
    (h : (if p then fail e else x) fs = .ok a fs') : ¬ p ∧ x fs = .ok a fs' := by
  by_cases hp : p
  · rw [if_pos hp] at h
    exact absurd h fail_ne_ok
  · rw [if_neg hp] at h
    exact ⟨hp, h⟩

theorem ite_panic_ok {p : Prop} [Decidable p] {x : FsM α} {a : α}
    (h : (if p then panic else x) fs = .ok a fs') : ¬ p ∧ x fs = .ok a fs' := by
  by_cases hp : p
  · rw [if_pos hp] at h
    exact absurd h panic_ne_ok
  · rw [if_neg hp] at h
    exact ⟨hp, h⟩

/-- A step that is made under a condition. -/
theorem when_ok {p : Prop} [Decidable p] {x : FsM PUnit} {a : PUnit} (h : (if p then x else pure ⟨⟩) fs = .ok a fs') :
    (p ∧ x fs = .ok a fs') ∨ (¬ p ∧ fs' = fs) := by
  by_cases hp : p
  · rw [if_pos hp] at h
    exact .inl ⟨hp, h⟩
  · rw [if_neg hp] at h
    exact .inr ⟨hp, (pure_eq_ok h).2⟩

theorem onError_ok {x : FsM α} {cleanup : FsM Unit} {a : α} (h : onError x cleanup fs = .ok a fs') :
    x fs = .ok a fs' := by
  unfold onError at h
  split at h
  · rename_i hx
    rw [hx]
    exact h
  · cases h
  · split at h <;> cases h

/-- Whether a call returns a result. -/
def succeeds : EStateM.Result Fault Ext2Fs α → Bool
  | .ok _ _ => true
  | .error _ _ => false

theorem exists_of_succeeds (x : FsM α) (fs : Ext2Fs) (h : succeeds (x fs) = true) : ∃ a fs', x fs = .ok a fs' := by
  revert h
  cases x fs with
  | ok a fs' => exact fun _ => ⟨a, fs', rfl⟩
  | error e fs' => exact fun h => nomatch h

/-- Whether a call returns, with a property of the result and the state. -/
def endsIn (p : α → Ext2Fs → Bool) : EStateM.Result Fault Ext2Fs α → Bool
  | .ok a fs => p a fs
  | .error _ _ => false

theorem exists_of_endsIn (x : FsM α) (fs : Ext2Fs) {p : α → Ext2Fs → Bool} (h : endsIn p (x fs) = true) :
    ∃ a fs', x fs = .ok a fs' ∧ p a fs' = true := by
  revert h
  cases x fs with
  | ok a fs' => exact fun h => ⟨a, fs', rfl, h⟩
  | error e fs' => exact fun h => nomatch h

/-- Whether a call fails with an error, with a property of the state. -/
def failsIn (e : Fault) (p : Ext2Fs → Bool) : EStateM.Result Fault Ext2Fs α → Bool
  | .ok _ _ => false
  | .error e' fs => decide (e' = e) && p fs

theorem exists_of_failsIn (x : FsM α) (fs : Ext2Fs) {e : Fault} {p : Ext2Fs → Bool} (h : failsIn e p (x fs) = true) :
    ∃ fs', x fs = .error e fs' ∧ p fs' = true := by
  revert h
  cases x fs with
  | ok a fs' => exact fun h => nomatch h
  | error e' fs' =>
    intro h
    obtain ⟨he, hp⟩ := Bool.and_eq_true_iff.1 h
    exact ⟨fs', by rw [of_decide_eq_true he], hp⟩

/-! ## Blocks and inodes in memory -/

theorem readFsBlock_ok {b : Nat} {buf : Bytes} (h : readFsBlock b fs = .ok buf fs') :
    b < fs.deviceBlocks ∧ buf = fs.disk b ∧ fs' = fs := by
  rw [readFsBlock, get_bind] at h
  by_cases hb : b < fs.deviceBlocks
  · rw [if_pos hb] at h
    exact ⟨hb, pure_eq_ok h⟩
  · rw [if_neg hb] at h
    exact absurd h fail_ne_ok

theorem readFsBlock_bind_ok {b : Nat} {f : Bytes → FsM α} {a : α} (h : (readFsBlock b >>= f) fs = .ok a fs') :
    b < fs.deviceBlocks ∧ f (fs.disk b) fs = .ok a fs' := by
  obtain ⟨buf, fs₁, hread, h⟩ := bind_eq_ok h
  obtain ⟨hb, hbuf, hfs⟩ := readFsBlock_ok hread
  rw [hbuf, hfs] at h
  exact ⟨hb, h⟩

theorem writeFsBlock_ok {b : Nat} {buf : Bytes} {u : PUnit} (h : writeFsBlock b buf fs = .ok u fs') :
    fs.readOnly = false ∧ b < fs.deviceBlocks ∧ fs' = fs.setDisk b buf := by
  rw [writeFsBlock, get_bind] at h
  obtain ⟨hro, h⟩ := ite_fail_ok h
  by_cases hb : b < fs.deviceBlocks
  · rw [if_pos hb] at h
    cases h
    exact ⟨by simpa using hro, hb, rfl⟩
  · rw [if_neg hb] at h
    exact absurd h fail_ne_ok

theorem writeFsBlock_bind_ok {b : Nat} {buf : Bytes} {f : PUnit → FsM α} {a : α}
    (h : (writeFsBlock b buf >>= f) fs = .ok a fs') :
    fs.readOnly = false ∧ b < fs.deviceBlocks ∧ f ⟨⟩ (fs.setDisk b buf) = .ok a fs' := by
  obtain ⟨u, fs₁, hwrite, h⟩ := bind_eq_ok h
  obtain ⟨hro, hb, hfs⟩ := writeFsBlock_ok hwrite
  rw [hfs] at h
  exact ⟨hro, hb, h⟩

/-- The blocks of one request. -/
def Ext2Fs.setDisks (fs : Ext2Fs) (start count : Nat) (buf : Bytes) : Ext2Fs :=
  { fs with
    disk := fun b =>
      if start ≤ b ∧ b < start + count then dropBytes buf ((b - start) * fs.blockSize) else fs.disk b }

theorem writeFsBlocks_ok {start count : Nat} {buf : Bytes} {u : PUnit}
    (h : writeFsBlocks start count buf fs = .ok u fs') :
    fs.readOnly = false ∧ start + count ≤ fs.deviceBlocks ∧ fs' = fs.setDisks start count buf := by
  rw [writeFsBlocks, get_bind] at h
  obtain ⟨hro, h⟩ := ite_fail_ok h
  by_cases hb : start + count ≤ fs.deviceBlocks
  · rw [if_pos hb] at h
    cases h
    exact ⟨by simpa using hro, hb, rfl⟩
  · rw [if_neg hb] at h
    exact absurd h fail_ne_ok

/-- The inode in memory, replaced. -/
def Ext2Fs.setInode (fs : Ext2Fs) (n : Nat) (r : Option RawInode) : Ext2Fs :=
  { fs with inodeCache := Function.update fs.inodeCache n r }

theorem raw_ok {n : Nat} {r : RawInode} (h : raw n fs = .ok r fs') : fs.inodeCache n = some r ∧ fs' = fs := by
  rw [raw, get_bind] at h
  cases hr : fs.inodeCache n with
  | none =>
    rw [hr] at h
    exact absurd h panic_ne_ok
  | some r₀ =>
    rw [hr] at h
    obtain ⟨hr, hfs⟩ := pure_eq_ok h
    rw [hr]
    exact ⟨rfl, hfs⟩

theorem raw_bind_ok {n : Nat} {f : RawInode → FsM α} {a : α} (h : (raw n >>= f) fs = .ok a fs') :
    ∃ r, fs.inodeCache n = some r ∧ f r fs = .ok a fs' := by
  obtain ⟨r, fs₁, hraw, h⟩ := bind_eq_ok h
  obtain ⟨hr, hfs⟩ := raw_ok hraw
  rw [hfs] at h
  exact ⟨r, hr, h⟩

theorem modifyRaw_ok {n : Nat} {f : RawInode → RawInode} {u : PUnit} (h : modifyRaw n f fs = .ok u fs') :
    ∃ r, fs.inodeCache n = some r ∧ fs' = fs.setInode n (some (f r)) := by
  obtain ⟨r, hr, h⟩ := raw_bind_ok h
  cases h
  exact ⟨r, hr, rfl⟩

theorem modifyRaw_bind_ok {n : Nat} {f : RawInode → RawInode} {g : PUnit → FsM α} {a : α}
    (h : (modifyRaw n f >>= g) fs = .ok a fs') :
    ∃ r, fs.inodeCache n = some r ∧ g ⟨⟩ (fs.setInode n (some (f r))) = .ok a fs' := by
  obtain ⟨u, fs₁, hmod, h⟩ := bind_eq_ok h
  obtain ⟨r, hr, hfs⟩ := modifyRaw_ok hmod
  rw [hfs] at h
  exact ⟨r, hr, h⟩

/-! ## Allocating and freeing -/

theorem bitmap_set_bind_ok {m : Bitmap} {i : Nat} {f : Bitmap → FsM α} {a : α} (h : (m.set i >>= f) fs = .ok a fs') :
    f { m with data := writeBitAt true m.data i } fs = .ok a fs' := by
  unfold Bitmap.set at h
  split at h
  · exact h
  · obtain ⟨m', fs₁, hfail, -⟩ := bind_eq_ok h
    exact absurd hfail fail_ne_ok

theorem bitmap_clear_bind_ok {m : Bitmap} {i : Nat} {f : Bitmap → FsM α} {a : α}
    (h : (m.clear i >>= f) fs = .ok a fs') : f { m with data := writeBitAt false m.data i } fs = .ok a fs' := by
  unfold Bitmap.clear at h
  split at h
  · exact h
  · obtain ⟨m', fs₁, hfail, -⟩ := bind_eq_ok h
    exact absurd hfail fail_ne_ok

/-- A search of one group that succeeded found nothing, or took a clear bit. -/
def Found (k : Kind) (fs fs' : Ext2Fs) (g : Nat) : Option Nat → Prop
  | none => fs' = fs
  | some n => ∃ i, i < fs.superBlock.valid k g ∧ fs.bit k g i = false ∧ n = fs.superBlock.number k g i ∧
      fs' = fs.mark k n true

theorem allocBlockIn_ok (hG : fs.Geometry) {g : Nat} {found : Option Nat} (h : allocBlockIn g fs = .ok found fs') :
    Found .block fs fs' g found := by
  rw [allocBlockIn, get_bind] at h
  cases hg : fs.blockGroups[g]? with
  | none =>
    simp only [hg] at h
    exact absurd h panic_ne_ok
  | some bg =>
    simp only [hg] at h
    by_cases hfree : bg.freeBlocksCount = 0
    · rw [if_pos hfree] at h
      obtain ⟨rfl, hfs⟩ := pure_eq_ok h
      exact hfs
    rw [if_neg hfree] at h
    obtain ⟨-, h⟩ := ite_panic_ok h
    obtain ⟨-, h⟩ := readFsBlock_bind_ok h
    rw [← hG.valid_block] at h
    cases hfind : Bitmap.findFirstClear ⟨fs.disk bg.blockBitmap, fs.blockSize, fs.superBlock.valid .block g⟩ with
    | none =>
      rw [hfind] at h
      obtain ⟨rfl, hfs⟩ := pure_eq_ok h
      exact hfs
    | some i =>
      rw [hfind] at h
      obtain ⟨hi, -, hbit⟩ := findFirstClear_eq_some hfind
      obtain ⟨-, -, h⟩ := writeFsBlock_bind_ok (bitmap_set_bind_ok h)
      rw [get_bind] at h
      obtain ⟨-, h⟩ := ite_panic_ok h
      cases h
      have hper : i < fs.superBlock.perGroup .block := Nat.lt_of_lt_of_le hi SuperBlock.valid_le
      refine ⟨i, hi, by rw [bit_eq hg]; exact hbit, rfl, ?_⟩
      show _ = fs.mark .block (fs.superBlock.number .block g i) true
      rw [mark_number hg hper]
      rfl

/-- A free number was taken. -/
def Taken (k : Kind) (fs fs' : Ext2Fs) (n : Nat) : Prop :=
  fs.superBlock.InRange k n ∧ ¬ fs.Allocated k n ∧ fs' = fs.mark k n true

theorem firstFit_ok {k : Kind} {search : Nat → FsM (Option Nat)}
    (hsearch : ∀ g found fs', search g fs = .ok found fs' → Found k fs fs' g found) (order : List Nat) {n : Nat}
    (h : firstFit search order fs = .ok n fs') : Taken k fs fs' n := by
  induction order with
  | nil => exact absurd h fail_ne_ok
  | cons g order ih =>
    obtain ⟨found, fs₁, hg, h⟩ := bind_eq_ok h
    have hfound := hsearch g found fs₁ hg
    cases found with
    | none =>
      rw [show fs₁ = fs from hfound] at h
      exact ih h
    | some m =>
      obtain ⟨rfl, hfs⟩ := pure_eq_ok h
      obtain ⟨i, hi, hbit, hn, hmark⟩ := hfound
      rw [hfs, Taken, hn]
      exact ⟨SuperBlock.inRange_number hi, not_allocated_number hi hbit, hn ▸ hmark⟩

theorem allocBlockGoal_ok (hG : fs.Geometry) {goal n : Nat} (h : allocBlockGoal goal fs = .ok n fs') :
    Taken .block fs fs' n := by
  rw [allocBlockGoal, get_bind] at h
  obtain ⟨-, h⟩ := ite_fail_ok h
  exact firstFit_ok (fun g found fs' => allocBlockIn_ok hG) _ h

theorem getGroup_bind_ok {g : Nat} {f : BlockGroupDescriptor → FsM α} {a : α} (h : (getGroup g >>= f) fs = .ok a fs') :
    ∃ bg, fs.blockGroups[g]? = some bg ∧ f bg fs = .ok a fs' := by
  cases hg : fs.blockGroups[g]? with
  | some bg =>
    rw [bind_ok (getGroup_eq hg)] at h
    exact ⟨bg, rfl, h⟩
  | none =>
    obtain ⟨bg, fs₁, hget, -⟩ := bind_eq_ok h
    rw [getGroup, get_bind, hg] at hget
    exact absurd hget fail_ne_ok

theorem freeBlock_ok {n : Nat} {u : PUnit} (h : freeBlock n fs = .ok u fs') : fs' = fs.mark .block n false := by
  rw [freeBlock, get_bind] at h
  obtain ⟨-, h⟩ := ite_fail_ok h
  obtain ⟨-, h⟩ := ite_fail_ok h
  obtain ⟨bg, hg, h⟩ := getGroup_bind_ok h
  obtain ⟨-, h⟩ := readFsBlock_bind_ok h
  obtain ⟨-, -, h⟩ := writeFsBlock_bind_ok (bitmap_clear_bind_ok h)
  rw [get_bind] at h
  obtain ⟨-, h⟩ := ite_panic_ok h
  cases h
  rw [Ext2Fs.mark, show fs.blockGroups[fs.superBlock.groupOf .block n]? = some bg from hg]
  rfl

end Koros.Ext2
