import Koros.Fs.Coherence

/-!
# The block layer of a filesystem refines one store

`Op` lists the ways a filesystem reaches its device: the cache's own reads and writes, cached filesystem blocks, direct
runs of filesystem blocks, and syncs. `specStep` is the same operation on a plain array of device blocks. Over a device
that never fails the two give the same results for every capacity and every sequence (`run_refines`), and after a sync
the device's content is the array.
-/
set_option autoImplicit false

namespace Koros.Fs

/-! ## The store -/

/-- Bytes of the `i`-th block-sized chunk of a buffer. -/
def chunk (bs : Nat) (buf : Block) (i : Nat) : Block := (buf.drop (i * bs)).take bs

/-- The bytes of `n` consecutive blocks. -/
def readRun (s : Nat → Block) (start n : Nat) : Block := (List.range n).flatMap fun i => s (start + i)

/-- The array with `n` consecutive blocks taken from a buffer. -/
def writeRun (bs : Nat) (s : Nat → Block) (start n : Nat) (buf : Block) : Nat → Block :=
  fun j => if start ≤ j ∧ j < start + n then chunk bs buf (j - start) else s j

theorem readRun_succ (s : Nat → Block) (start n : Nat) :
    readRun s start (n + 1) = s start ++ readRun s (start + 1) n := by
  simp only [readRun, List.range_succ_eq_map, List.flatMap_cons, List.flatMap_map, Nat.add_zero]
  congr 2
  funext i
  rw [Nat.add_assoc, Nat.add_comm 1 i]

theorem readRun_congr {s t : Nat → Block} {start n : Nat} (h : ∀ j, start ≤ j → j < start + n → s j = t j) :
    readRun s start n = readRun t start n := by
  unfold readRun
  apply List.flatMap_congr
  intro i hi
  exact h _ (by omega) (by have := List.mem_range.1 hi; omega)

theorem writeRun_succ (bs : Nat) (s : Nat → Block) (start n : Nat) (buf : Block) :
    writeRun bs s start (n + 1) buf =
      writeRun bs (fun j => if j = start then buf.take bs else s j) (start + 1) n (buf.drop bs) := by
  funext j
  unfold writeRun chunk
  by_cases hj : start + 1 ≤ j ∧ j < start + 1 + n
  · rw [if_pos (by omega), if_pos hj, List.drop_drop]
    have : bs + (j - (start + 1)) * bs = (j - start) * bs := by
      rw [show j - start = (j - (start + 1)) + 1 by omega, Nat.succ_mul, Nat.add_comm]
    rw [this]
  · rw [if_neg hj]
    by_cases hs : j = start
    · subst hs
      show _ = if j = j then List.take bs buf else s j
      rw [if_pos (by omega), if_pos rfl]; simp
    · show _ = if j = start then List.take bs buf else s j
      rw [if_neg (by omega), if_neg hs]

/-! ## The operations -/

namespace FsIo

open BlockCache

theorem readCached_spec : ∀ (n id : Nat) {c : BlockCache}, c.Coherent →
    ∃ c', readCached n id c = (.ok (readRun c.logical id n), c') ∧ Moved c c'
  | 0, _, c, h => ⟨c, rfl, .refl h⟩
  | n + 1, id, c, h => by
    obtain ⟨c₁, he₁, hm₁⟩ := readBlockCached_spec h id
    obtain ⟨c₂, he₂, hm₂⟩ := readCached_spec n (id + 1) hm₁.coherent
    refine ⟨c₂, ?_, hm₁.trans hm₂⟩
    rw [hm₁.logical_eq] at he₂
    simp [readCached, he₁, he₂, readRun_succ]

theorem writeCached_spec : ∀ (n id : Nat) (buf : Block) {c : BlockCache}, c.Coherent →
    buf.length = n * c.device.blockSize →
    ∃ c', writeCached n id buf c = (.ok (), c') ∧ c'.Coherent ∧ c'.device.blockSize = c.device.blockSize ∧
      c'.logical = writeRun c.device.blockSize c.logical id n buf
  | 0, id, buf, c, h, _ => ⟨c, rfl, h, rfl, by funext j; rw [writeRun, if_neg (by omega)]⟩
  | n + 1, id, buf, c, h, hl => by
    rw [Nat.succ_mul] at hl
    obtain ⟨c₁, he₁, hc₁, hbs₁, hlog₁⟩ := writeBlockCached_spec h id
      (show (buf.take c.device.blockSize).length = c.device.blockSize by simp; omega)
    obtain ⟨c₂, he₂, hc₂, hbs₂, hlog₂⟩ := writeCached_spec n (id + 1) (buf.drop c₁.device.blockSize) hc₁
      (by simp only [List.length_drop, hbs₁]; omega)
    refine ⟨c₂, by simp [writeCached, he₁, he₂], hc₂, hbs₂.trans hbs₁, ?_⟩
    rw [hlog₂, writeRun_succ, hbs₁]
    congr 1
    funext j
    exact hlog₁ j

variable {io : FsIo}

/-- The view of a filesystem's block layer. -/
def logical (io : FsIo) : Nat → Block := io.cache.logical

theorem readFsBlocks_spec (h : io.cache.Coherent) (start count : Nat) :
    ∃ io', io.readFsBlocks start count = (.ok (readRun io.logical (start * io.per) (count * io.per)), io') ∧
      Moved io.cache io'.cache ∧ io'.blockSize = io.blockSize ∧ io'.readOnly = io.readOnly := by
  obtain ⟨c, he, hm, hdev⟩ := flushRange_spec h (start * io.per) (count * io.per)
  have hr : c.device.readBlocks (start * io.per) (count * io.per) =
      (.ok (readRun c.device.content (start * io.per) (count * io.per)), c.device.served) :=
    Device.request_eq hm.coherent.healthy _ _
  have hm' : Moved c { c with device := c.device.served } :=
    moved_of_device hm.coherent hm.coherent.healthy.served rfl (fun _ _ => rfl) (fun _ _ _ _ => rfl)
  refine ⟨{ io with cache := { c with device := c.device.served } }, ?_, hm.trans hm', rfl, rfl⟩
  simp only [readFsBlocks, he, hr, Except.mapError]
  rw [readRun_congr hdev, hm.logical_eq]
  rfl

theorem writeFsBlocks_spec (h : io.cache.Coherent) (hbs : 0 < io.cache.device.blockSize) (hro : io.readOnly = false)
    (start count : Nat) {buf : Block} (hl : buf.length = count * io.per * io.cache.device.blockSize) :
    ∃ io', io.writeFsBlocks start count buf = (.ok (), io') ∧ io'.cache.Coherent ∧
      io'.cache.device.blockSize = io.cache.device.blockSize ∧ io'.blockSize = io.blockSize ∧
      io'.readOnly = io.readOnly ∧
      io'.logical = writeRun io.cache.device.blockSize io.logical (start * io.per) (count * io.per) buf := by
  obtain ⟨i₁, i₅⟩ := invalidateRange_spec (count * io.per) (start * io.per) h
  obtain ⟨i₂, _, i₃⟩ := invalidateRange_gone (count * io.per) (start * io.per) io.cache
  set c := io.cache.invalidateRange (start * io.per) (count * io.per) with hcdef
  have hn : buf.length / c.device.served.blockSize = count * io.per := by
    rw [show c.device.served.blockSize = io.cache.device.blockSize by rw [← i₂]; rfl, hl, Nat.mul_div_cancel _ hbs]
  obtain ⟨p₁, p₂, p₃⟩ := Device.putChunks_spec (count * io.per) (start * io.per) buf c.device.served i₁.healthy.served
    (by rw [hl, ← i₂]; rfl)
  have hw : c.device.writeBlocks (start * io.per) buf =
      (.ok (), Device.putChunks (count * io.per) (start * io.per) buf c.device.served) := by
    rw [← hn]; exact Device.request_eq i₁.healthy _ _
  -- a cached block is outside the range, where the device did not change
  have hout : ∀ j, (c.cache[j]?).isSome → ¬ (start * io.per ≤ j ∧ j < start * io.per + count * io.per) := fun j hj hr => by
    rw [i₃ j hr.1 hr.2] at hj; cases hj
  refine ⟨{ io with cache := { c with device := Device.putChunks (count * io.per) (start * io.per) buf c.device.served } },
    by simp only [writeFsBlocks, hro, ← hcdef, hw, Except.mapError, Bool.false_eq_true, if_false],
    ⟨p₁, fun he => ?_, fun {j} e he hf => ?_, i₁.nodup, i₁.order⟩, ?_, rfl, rfl, ?_⟩
  · show _ ∧ _ = (Device.putChunks _ _ _ _).blockSize
    rw [p₂]; exact i₁.entry he
  · show _ = (Device.putChunks _ _ _ _).content _
    rw [p₃, if_neg (hout j (by rw [he]; rfl))]
    exact i₁.clean he hf
  · show (Device.putChunks _ _ _ _).blockSize = _
    rw [p₂, ← i₂]; rfl
  · funext j
    unfold FsIo.logical writeRun
    by_cases hr : start * io.per ≤ j ∧ j < start * io.per + count * io.per
    · rw [if_pos hr]
      simp only [BlockCache.logical, i₃ j hr.1 hr.2, p₃, if_pos hr, chunk, ← i₂]
      rfl
    · rw [if_neg hr, ← i₅ j hr]
      simp only [BlockCache.logical]
      split
      · rfl
      · rw [p₃, if_neg hr]; rfl

end FsIo

/-! ## Runs -/

inductive Op where
  | readBlock (id len : Nat)
  | writeBlock (id : Nat) (buf : Block)
  | readFsBlock (fsBlock : Nat)
  | writeFsBlock (fsBlock : Nat) (buf : Block)
  | readFsBlocks (start count : Nat)
  | writeFsBlocks (start count : Nat) (buf : Block)
  | sync

/-- Reads give `some` bytes, writes and syncs `some []`; an error is `none`. -/
abbrev Result := Option Block

def Result.ofExcept {ε α : Type} (f : α → Block) : Except ε α → Result
  | .ok a => some (f a)
  | .error _ => none

/-- The callers' contract: the buffer of a filesystem block or of a run of them has their size. -/
def Op.Fits (bs per : Nat) : Op → Prop
  | .writeFsBlock _ buf => buf.length = per * bs
  | .writeFsBlocks _ count buf => buf.length = count * per * bs
  | _ => True

/-- One operation on the block layer. -/
def FsIo.step (io : FsIo) : Op → Result × FsIo
  | .readBlock id len =>
    let (r, c) := io.cache.readBlockCached id len
    (.ofExcept (fun b => b) r, { io with cache := c })
  | .writeBlock id buf =>
    let (r, c) := io.cache.writeBlockCached id buf
    (.ofExcept (fun _ => []) r, { io with cache := c })
  | .readFsBlock b => (io.readFsBlock b).map (.ofExcept fun b => b) id
  | .writeFsBlock b buf => (io.writeFsBlock b buf).map (.ofExcept fun _ => []) id
  | .readFsBlocks b n => (io.readFsBlocks b n).map (.ofExcept fun b => b) id
  | .writeFsBlocks b n buf => (io.writeFsBlocks b n buf).map (.ofExcept fun _ => []) id
  | .sync => io.syncCache.map (.ofExcept fun _ => []) id

/-- The same operation on an array of device blocks of `bs` bytes. -/
def specStep (bs per : Nat) (readOnly : Bool) (s : Nat → Block) : Op → Result × (Nat → Block)
  | .readBlock id len => (if len = bs then some (s id) else none, s)
  | .writeBlock id buf => if buf.length = bs then (some [], fun j => if j = id then buf else s j) else (none, s)
  | .readFsBlock b => (some (readRun s (b * per) per), s)
  | .writeFsBlock b buf => if readOnly then (none, s) else (some [], writeRun bs s (b * per) per buf)
  | .readFsBlocks b n => (some (readRun s (b * per) (n * per)), s)
  | .writeFsBlocks b n buf => if readOnly then (none, s) else (some [], writeRun bs s (b * per) (n * per) buf)
  | .sync => (some [], s)

def FsIo.run (io : FsIo) : List Op → List Result × FsIo
  | [] => ([], io)
  | op :: ops =>
    let (r, io) := io.step op
    let (rs, io) := io.run ops
    (r :: rs, io)

def specRun (bs per : Nat) (readOnly : Bool) (s : Nat → Block) : List Op → List Result × (Nat → Block)
  | [] => ([], s)
  | op :: ops =>
    let (r, s) := specStep bs per readOnly s op
    let (rs, s) := specRun bs per readOnly s ops
    (r :: rs, s)

/-- The layer represents the array `s`. -/
structure Represents (bs fsBs : Nat) (readOnly : Bool) (io : FsIo) (s : Nat → Block) : Prop where
  coherent : io.cache.Coherent
  pos : 0 < bs
  device_eq : io.cache.device.blockSize = bs
  fs_eq : io.blockSize = fsBs
  readOnly_eq : io.readOnly = readOnly
  logical_eq : io.logical = s

section Steps

variable {bs fsBs : Nat} {readOnly : Bool} {io : FsIo} {s : Nat → Block}

theorem Represents.per_eq (h : Represents bs fsBs readOnly io s) : io.per = fsBs / bs := by
  rw [FsIo.per, h.fs_eq, h.device_eq]

theorem Represents.moved (h : Represents bs fsBs readOnly io s) {c : BlockCache} (hm : BlockCache.Moved io.cache c) :
    Represents bs fsBs readOnly { io with cache := c } s :=
  ⟨hm.coherent, h.pos, hm.blockSize_eq.trans h.device_eq, h.fs_eq, h.readOnly_eq, hm.logical_eq.trans h.logical_eq⟩

/-- One operation gives the result of the array, and keeps representing it. -/
theorem step_refines (h : Represents bs fsBs readOnly io s) (op : Op) (hop : op.Fits bs (fsBs / bs)) :
    (io.step op).1 = (specStep bs (fsBs / bs) readOnly s op).1 ∧
    Represents bs fsBs readOnly (io.step op).2 (specStep bs (fsBs / bs) readOnly s op).2 := by
  obtain rfl := h.logical_eq
  obtain rfl := h.device_eq
  have hper := h.per_eq
  cases op with
  | readBlock id len =>
    by_cases hl : len = io.cache.device.blockSize
    · subst hl
      obtain ⟨c, he, hm⟩ := BlockCache.readBlockCached_spec h.coherent id
      simp only [FsIo.step, specStep, he, if_true]
      exact ⟨rfl, h.moved hm⟩
    · simp only [FsIo.step, specStep, BlockCache.readBlockCached, ne_eq, hl, not_false_eq_true, if_true, if_false]
      exact ⟨rfl, h⟩
  | writeBlock id buf =>
    by_cases hl : buf.length = io.cache.device.blockSize
    · obtain ⟨c, he, hc, hbs, hlog⟩ := BlockCache.writeBlockCached_spec h.coherent id hl
      simp only [FsIo.step, specStep, he, hl, if_true]
      exact ⟨rfl, hc, h.pos, hbs, h.fs_eq, h.readOnly_eq, funext hlog⟩
    · simp only [FsIo.step, specStep, BlockCache.writeBlockCached, ne_eq, hl, not_false_eq_true, if_true, if_false]
      exact ⟨rfl, h⟩
  | readFsBlock b =>
    obtain ⟨c, he, hm⟩ := FsIo.readCached_spec io.per (b * io.per) h.coherent
    simp only [FsIo.step, specStep, FsIo.readFsBlock, he, ← hper]
    exact ⟨rfl, h.moved hm⟩
  | writeFsBlock b buf =>
    have hro := h.readOnly_eq
    cases readOnly with
    | true => simp only [FsIo.step, specStep, FsIo.writeFsBlock, hro, if_true]; exact ⟨rfl, h⟩
    | false =>
      have hl : buf.length = io.per * io.cache.device.blockSize := by rw [hper]; exact hop
      obtain ⟨c, he, hc, hbs, hlog⟩ := FsIo.writeCached_spec io.per (b * io.per) buf h.coherent hl
      simp only [FsIo.step, specStep, FsIo.writeFsBlock, hro, Bool.false_eq_true, if_false, he, ← hper]
      exact ⟨rfl, hc, h.pos, hbs, h.fs_eq, rfl, hlog⟩
  | readFsBlocks b n =>
    obtain ⟨io', he, hm, hfs, hro⟩ := FsIo.readFsBlocks_spec h.coherent b n
    simp only [FsIo.step, specStep, he, ← hper]
    exact ⟨rfl, hm.coherent, h.pos, hm.blockSize_eq, hfs.trans h.fs_eq, hro.trans h.readOnly_eq, hm.logical_eq⟩
  | writeFsBlocks b n buf =>
    have hro := h.readOnly_eq
    cases readOnly with
    | true => simp only [FsIo.step, specStep, FsIo.writeFsBlocks, hro, if_true]; exact ⟨rfl, h⟩
    | false =>
      have hl : buf.length = n * io.per * io.cache.device.blockSize := by rw [hper]; exact hop
      obtain ⟨io', he, hc, hbs, hfs, hro', hlog⟩ := FsIo.writeFsBlocks_spec h.coherent h.pos hro b n hl
      simp only [FsIo.step, specStep, he, Bool.false_eq_true, if_false, ← hper]
      exact ⟨rfl, hc, h.pos, hbs, hfs.trans h.fs_eq, hro'.trans hro, hlog⟩
  | sync =>
    obtain ⟨c, he, hm, _⟩ := BlockCache.sync_spec h.coherent
    simp only [FsIo.step, specStep, FsIo.syncCache, he]
    exact ⟨rfl, h.moved hm⟩

/-- Every sequence of operations gives the results of the array. -/
theorem run_refines : ∀ (ops : List Op) {io : FsIo} {s : Nat → Block}, Represents bs fsBs readOnly io s →
    (∀ op ∈ ops, op.Fits bs (fsBs / bs)) →
    (io.run ops).1 = (specRun bs (fsBs / bs) readOnly s ops).1 ∧
    Represents bs fsBs readOnly (io.run ops).2 (specRun bs (fsBs / bs) readOnly s ops).2
  | [], _, _, h, _ => ⟨rfl, h⟩
  | op :: ops, io, s, h, hops => by
    obtain ⟨h₁, h₂⟩ := step_refines h op (hops op (by simp))
    obtain ⟨h₃, h₄⟩ := run_refines ops h₂ fun o ho => hops o (by simp [ho])
    exact ⟨by simp only [FsIo.run, specRun, h₁, h₃], h₄⟩

end Steps

/-- A freshly mounted block layer represents the device's content. -/
theorem new_represents {d : Device} (hd : d.Healthy) (hbs : 0 < d.blockSize) (maxBlocks fsBs : Nat) (readOnly : Bool) :
    Represents d.blockSize fsBs readOnly ⟨.new d maxBlocks, fsBs, readOnly⟩ d.content where
  coherent := BlockCache.new_coherent hd maxBlocks
  pos := hbs
  device_eq := rfl
  fs_eq := rfl
  readOnly_eq := rfl
  logical_eq := by funext id; simp [FsIo.logical, BlockCache.logical, BlockCache.new]

/-- **Refinement**: for every capacity and every sequence of cached and direct accesses over a device that never fails,
the results are those of an array that starts as the device, and after a sync the device is that array. -/
theorem blockCache_refines {d : Device} (hd : d.Healthy) (hbs : 0 < d.blockSize) (maxBlocks fsBs : Nat) (readOnly : Bool)
    (ops : List Op) (hops : ∀ op ∈ ops, op.Fits d.blockSize (fsBs / d.blockSize)) :
    let io := (FsIo.run ⟨.new d maxBlocks, fsBs, readOnly⟩ ops)
    let spec := specRun d.blockSize (fsBs / d.blockSize) readOnly d.content ops
    io.1 = spec.1 ∧ (io.2.step .sync).1 = some [] ∧ (io.2.step .sync).2.cache.device.content = spec.2 := by
  obtain ⟨h₁, h₂⟩ := run_refines ops (new_represents hd hbs maxBlocks fsBs readOnly) hops
  obtain ⟨c, he, _, hdev⟩ := BlockCache.sync_spec h₂.coherent
  refine ⟨h₁, ?_, ?_⟩
  · simp only [FsIo.step, FsIo.syncCache, he]; rfl
  · simp only [FsIo.step, FsIo.syncCache, he]
    exact hdev.trans h₂.logical_eq

/-- A device of two-byte blocks that never fails. -/
def zeroDevice : Device := ⟨2, fun _ => [0, 0], [], fun _ => none, 0⟩

/-- With a capacity of one block: a cached write, a direct write over it, and reads by both paths. -/
theorem blockCache_refines_zeroDevice :
    (FsIo.run ⟨.new zeroDevice 1, 4, false⟩
      [.writeBlock 3 [1, 2], .writeFsBlocks 1 1 [3, 4, 5, 6], .writeBlock 2 [7, 8], .readBlock 3 2,
        .readFsBlocks 1 1]).1 =
      [some [], some [], some [], some [5, 6], some [7, 8, 5, 6]] := by
  have h := (blockCache_refines (d := zeroDevice) ⟨fun _ => rfl, fun _ => rfl⟩ (by decide) 1 4 false
    [.writeBlock 3 [1, 2], .writeFsBlocks 1 1 [3, 4, 5, 6], .writeBlock 2 [7, 8], .readBlock 3 2, .readFsBlocks 1 1]
    (by simp [Op.Fits, zeroDevice])).1
  rw [h]
  decide

end Koros.Fs
