import Koros.Fs.Faults
import Koros.Fs.Refine

/-!
# Direct writes that the device refuses

`write_fs_blocks` drops the cached copies of its range before it asks the device. When the device refuses the request
the old bytes are read from the device alone, so a copy that was newer than the device is gone.

- `readBlockCached_healed`, `readFsBlocks_healed`: what the two paths read once the device answers again;
- `failed_write_keeps_iff`: a refused write keeps the range readable exactly when the device held every cached copy;
- `failed_write_loses_dirty`: a dirty block is lost.
-/
set_option autoImplicit false

namespace Koros.Fs

/-! ## A device that answers again -/

/-- The device with no failure ahead. -/
def Device.healed (d : Device) : Device := { d with faults := fun _ => none }

/-- The device of the cache does not fail any more. -/
def BlockCache.Answers (c : BlockCache) : Prop := ∀ n, c.device.faults n = none

namespace BlockCache

variable {c : BlockCache}

def healed (c : BlockCache) : BlockCache := { c with device := c.device.healed }

theorem healed_answers (c : BlockCache) : c.healed.Answers := fun _ => rfl

theorem Answers.request {α : Type} (h : c.Answers) (f : Device → Device) (r : α) :
    c.device.request f r = (.ok r, f c.device.served) := by
  simp [Device.request, h c.device.requests]

theorem Answers.flushDevice (h : c.Answers) :
    c.flushDevice = (.ok (), { c with device := c.device.served.persist }) := by
  simp only [BlockCache.flushDevice, Device.flush, h.request]

/-- A write-back succeeds, and the device keeps answering. -/
theorem Answers.writeback (h : c.Answers) (id : Nat) : (c.writeback id).1 = .ok () ∧ (c.writeback id).2.Answers := by
  unfold BlockCache.writeback
  cases hc : c.cache[id]? with
  | none => exact ⟨rfl, h⟩
  | some e =>
    cases hd : e.dirty with
    | false => simpa [hd] using h
    | true =>
      have hput : Answers { c with device := Device.put e.blockId e.data c.device.served } := h
      simp only [writeDirty, hc, hd, if_true, Device.writeBlock, h.request, hput.flushDevice]
      exact ⟨trivial, h⟩

theorem Answers.evictFrom : ∀ (order : List Nat) {c : BlockCache}, c.Answers → (evictFrom order c).1 = .ok ()
  | [], _, _ => rfl
  | victim :: rest, c, h => by
    unfold BlockCache.evictFrom
    split
    · rfl
    · obtain ⟨hok, hnext⟩ := h.writeback victim
      rcases hw : c.writeback victim with ⟨r, c₁⟩
      rw [hw] at hok hnext
      obtain rfl : r = .ok () := hok
      exact Answers.evictFrom rest (c := { c₁ with cache := c₁.cache.erase victim, accessOrder := rest }) hnext

/-- A read through the cache returns the logical content. -/
theorem readBlockCached_healed (c : BlockCache) (id : Nat) :
    (c.healed.readBlockCached id c.device.blockSize).1 = .ok (c.logical id) := by
  have h := c.healed_answers
  have hread : c.healed.device.readBlock id = (.ok (c.device.content id), c.healed.device.served) := h.request _ _
  unfold readBlockCached
  rw [if_neg (by simp [healed, Device.healed])]
  cases hc : c.cache[id]? with
  | some e => simp [healed, hc, logical]
  | none =>
    have hev := Answers.evictFrom (c.accessOrder ++ [id])
      (c := ⟨c.healed.device.served, c.cache.insert id ⟨id, c.device.content id, false⟩, c.maxBlocks,
        c.accessOrder ++ [id]⟩) h
    rw [show c.healed.cache[id]? = none from hc, hread]
    simp only [insertNew, evictIfNeeded]
    rcases hr : BlockCache.evictFrom (c.accessOrder ++ [id])
      ⟨c.healed.device.served, c.cache.insert id ⟨id, c.device.content id, false⟩, c.maxBlocks,
        c.accessOrder ++ [id]⟩ with ⟨r, c₁⟩
    rw [hr] at hev
    obtain rfl : r = .ok () := hev
    simp only [healed] at hr ⊢
    rw [hr]
    simp [logical, hc]

/-! ## A range without cached copies -/

theorem writeAll_of_none : ∀ (ids : List Nat) {c : BlockCache}, (∀ id ∈ ids, c.cache[id]? = none) →
    writeAll ids c = (.ok (), c)
  | [], _, _ => rfl
  | id :: ids, c, h => by
    have hid : c.writeDirty id = (.ok (), c) := by simp [writeDirty, h id List.mem_cons_self]
    simp only [writeAll, hid]
    exact writeAll_of_none ids fun j hj => h j (List.mem_cons_of_mem _ hj)

theorem cleanRange_device : ∀ (n id : Nat) (c : BlockCache), (c.cleanRange n id).device = c.device
  | 0, _, _ => rfl
  | n + 1, id, c => cleanRange_device n (id + 1) { c with cache := c.cache.modify id fun e => { e with dirty := false } }

end BlockCache

namespace FsIo

variable {io : FsIo}

def healed (io : FsIo) : FsIo := { io with cache := io.cache.healed }

/-- A direct read of blocks that are not cached returns the device's content. -/
theorem readFsBlocks_healed {first n : Nat}
    (h : ∀ j : Nat, first * io.per ≤ j → j < first * io.per + n * io.per → io.cache.cache[j]? = none) :
    (io.healed.readFsBlocks first n).1 = .ok (readRun io.cache.device.content (first * io.per) (n * io.per)) := by
  have hans := io.cache.healed_answers
  have hall : BlockCache.writeAll (List.range' (first * io.per) (n * io.per)) io.cache.healed =
      (.ok (), io.cache.healed) :=
    BlockCache.writeAll_of_none _ fun id hid => by
      rw [List.mem_range'_1] at hid
      exact h id hid.1 hid.2
  have hflush : io.cache.healed.flushRange (first * io.per) (n * io.per) =
      (.ok (), BlockCache.cleanRange { io.cache.healed with device := io.cache.healed.device.served.persist }
        (n * io.per) (first * io.per)) := by
    simp only [BlockCache.flushRange, hall, hans.flushDevice]
  have hper : io.healed.per = io.per := rfl
  unfold readFsBlocks
  rw [hper, show io.healed.cache = io.cache.healed from rfl, hflush]
  simp only [BlockCache.cleanRange_device, Device.readBlocks]
  rfl

/-! ## A refused write -/

/-- Every block of the range reads in `io'`, by both paths, as it did in `io`. -/
structure StillReads (io io' : FsIo) (start count : Nat) : Prop where
  cached : ∀ j, start * io.per ≤ j → j < start * io.per + count * io.per →
    (io'.healed.cache.readBlockCached j io.cache.device.blockSize).1 = .ok (io.logical j)
  direct : ∀ first n, start ≤ first → first + n ≤ start + count →
    (io'.healed.readFsBlocks first n).1 = .ok (readRun io.logical (first * io.per) (n * io.per))

/-- What a refused write leaves behind. -/
theorem writeFsBlocks_refused {start count : Nat} {buf : Block}
    (h : (io.writeFsBlocks start count buf).1 = .error .ioError) :
    (io.writeFsBlocks start count buf).2 = { io with cache :=
      { io.cache.invalidateRange (start * io.per) (count * io.per) with device := io.cache.device.served } } := by
  unfold writeFsBlocks at h ⊢
  split at h
  · cases h
  · rename_i hro
    rw [if_neg hro]
    simp only [Device.writeBlocks] at h ⊢
    rcases Device.request_cases (io.cache.invalidateRange (start * io.per) (count * io.per)).device
      (Device.putChunks (buf.length / (io.cache.invalidateRange (start * io.per) (count * io.per)).device.blockSize)
        (start * io.per) buf) () with ⟨e, hr⟩ | hr
    · rw [hr, (BlockCache.invalidateRange_gone _ _ io.cache).1]
    · rw [hr] at h
      cases h

/-- **Refused direct writes**: a write that the device refuses keeps every block of its range readable as before exactly
when the device already held each cached copy of the range. -/
theorem failed_write_keeps_iff {start count : Nat} {buf : Block}
    (h : (io.writeFsBlocks start count buf).1 = .error .ioError) :
    io.StillReads (io.writeFsBlocks start count buf).2 start count ↔
      ∀ j, start * io.per ≤ j → j < start * io.per + count * io.per → io.cache.Written j := by
  rw [writeFsBlocks_refused h]
  obtain ⟨-, -, hgone⟩ := BlockCache.invalidateRange_gone (count * io.per) (start * io.per) io.cache
  set io' : FsIo := { io with cache :=
    { io.cache.invalidateRange (start * io.per) (count * io.per) with device := io.cache.device.served } }
  have hlog : ∀ j, start * io.per ≤ j → j < start * io.per + count * io.per →
      io'.logical j = io.cache.device.content j := by
    intro j h₁ h₂
    simp only [io', logical, BlockCache.logical, hgone j h₁ h₂]
    rfl
  constructor
  · intro hs j h₁ h₂ e he
    have hread := BlockCache.readBlockCached_healed io'.cache j
    have heq : io'.logical j = io.logical j := Except.ok.inj (hread.symm.trans (hs.cached j h₁ h₂))
    rw [hlog j h₁ h₂] at heq
    rw [heq]
    simp [logical, BlockCache.logical, he]
  · intro hw
    have hsame : ∀ j, start * io.per ≤ j → j < start * io.per + count * io.per →
        io.cache.device.content j = io.logical j := by
      intro j h₁ h₂
      unfold logical BlockCache.logical
      split
      · rename_i e he
        exact (hw j h₁ h₂ e he).symm
      · rfl
    refine ⟨fun j h₁ h₂ => ?_, fun first n h₁ h₂ => ?_⟩
    · have hread := BlockCache.readBlockCached_healed io'.cache j
      rw [show io'.cache.logical j = io.logical j from (hlog j h₁ h₂).trans (hsame j h₁ h₂)] at hread
      exact hread
    · have hlo : start * io.per ≤ first * io.per := Nat.mul_le_mul_right _ h₁
      have hhi : first * io.per + n * io.per ≤ start * io.per + count * io.per := by
        rw [← Nat.add_mul, ← Nat.add_mul]
        exact Nat.mul_le_mul_right _ h₂
      have hread : (io'.healed.readFsBlocks first n).1 =
          .ok (readRun io'.cache.device.content (first * io'.per) (n * io'.per)) :=
        readFsBlocks_healed fun j h₃ h₄ => hgone j (Nat.le_trans hlo h₃) (Nat.lt_of_lt_of_le h₄ hhi)
      have hrun : readRun io.cache.device.content (first * io.per) (n * io.per) =
          readRun io.logical (first * io.per) (n * io.per) :=
        readRun_congr fun j h₃ h₄ => hsame j (Nat.le_trans hlo h₃) (Nat.lt_of_lt_of_le h₄ hhi)
      rw [← hrun]
      exact hread

/-- A device of two-byte blocks whose first request fails. -/
def refusingDevice : Device := ⟨2, fun _ => [0, 0], [], fun n => if n = 0 then some .ioError else none, 0⟩

/-- A layer over it whose only cached copy, of block 3, is `entry`. -/
def refusingIo (entry : CachedBlock) : FsIo :=
  ⟨⟨refusingDevice, (∅ : Std.TreeMap Nat CachedBlock).insert 3 entry, 8, [3]⟩, 2, false⟩

/-- A clean copy is read again after the refusal. -/
theorem failed_write_keeps_clean :
    ((refusingIo ⟨3, [0, 0], false⟩).writeFsBlocks 3 1 [7, 7]).1 = .error .ioError ∧
    (refusingIo ⟨3, [0, 0], false⟩).StillReads ((refusingIo ⟨3, [0, 0], false⟩).writeFsBlocks 3 1 [7, 7]).2 3 1 := by
  have hr : ((refusingIo ⟨3, [0, 0], false⟩).writeFsBlocks 3 1 [7, 7]).1 = .error .ioError := by decide
  refine ⟨hr, (failed_write_keeps_iff hr).2 fun j h₁ h₂ e he => ?_⟩
  have hper : (refusingIo ⟨3, [0, 0], false⟩).per = 1 := by decide
  rw [hper] at h₁ h₂
  obtain rfl : j = 3 := by omega
  have hget : (refusingIo ⟨3, [0, 0], false⟩).cache.cache[3]? = some ⟨3, [0, 0], false⟩ := by decide
  rw [hget] at he
  cases he
  decide

/-- A dirty block is lost: it was `[1, 2]` and reads as the device's zeros. -/
theorem failed_write_loses_dirty :
    ((refusingIo ⟨3, [1, 2], true⟩).writeFsBlocks 3 1 [7, 7]).1 = .error .ioError ∧
    ((refusingIo ⟨3, [1, 2], true⟩).cache.healed.readBlockCached 3 2).1 = .ok [1, 2] ∧
    (((refusingIo ⟨3, [1, 2], true⟩).writeFsBlocks 3 1 [7, 7]).2.cache.healed.readBlockCached 3 2).1 = .ok [0, 0] ∧
    ¬ (refusingIo ⟨3, [1, 2], true⟩).StillReads ((refusingIo ⟨3, [1, 2], true⟩).writeFsBlocks 3 1 [7, 7]).2 3 1 := by
  refine ⟨by decide, by decide, by decide, fun h => ?_⟩
  have hread := h.cached 3 (by decide) (by decide)
  revert hread
  decide

end FsIo

end Koros.Fs
