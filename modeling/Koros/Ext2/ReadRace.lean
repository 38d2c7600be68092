import Koros.Lib.Look
import Koros.Lib.Effect
import Koros.Ext2.Ops

/-!
# Reading while others write

`read_at` takes no part in the transaction lock: it looks up block pointers and reads blocks one after the other, while
transactions of other tasks go on. `readAtSteps` is `read_at` with its looks at the shared state one by one
(`readAtSteps_alone`: without other tasks it is `read_at`); other tasks write blocks and change the inodes in memory
(`Act`). Every byte it returns was a byte of the file at some moment of the call, or a hole (`read_at_own_bytes`), in
every run in which the other tasks keep the pointers that the file has and link only blocks that hold its own data
(`Spares`). A `truncate` of the file between the look-up of a pointer and the transfer gives the block away
(`truncate_race`).
-/
set_option autoImplicit false

namespace Koros.Ext2

open Koros.Lib Relation Function

/-! ## The shared state -/

/-- The filesystem, and for each block the inode whose data was written there last; none for metadata and zeros. -/
structure Shared where
  fs : Ext2Fs
  writer : (block : Nat) → Option Nat

/-- One step of another task. -/
inductive Act where
  /-- A block is written, for the data of inode `who` or as metadata. -/
  | write (who : Option Nat) (b : Nat) (buf : Bytes)
  /-- The copy of inode `n` in memory changes. -/
  | inode (n : Nat) (r : Option RawInode)
  /-- The counters in memory change. -/
  | count (groups : List BlockGroupDescriptor) (freeBlocks freeInodes : Nat)

def Shared.act (c : Shared) : Act → Shared
  | .write who b buf => ⟨c.fs.setDisk b buf, Function.update c.writer b who⟩
  | .inode n r => { c with fs := { c.fs with inodeCache := Function.update c.fs.inodeCache n r } }
  | .count groups freeBlocks freeInodes =>
    { c with fs := { c.fs with
      blockGroups := groups
      superBlock := { c.fs.superBlock with freeBlocksCount := freeBlocks, freeInodesCount := freeInodes } } }

/-! ## Reading step by step -/

abbrev ReadM := Look Shared Fault

def lookBlockSize : ReadM Nat := .peek fun c => .ok c.fs.blockSize

def lookRaw (ino : Nat) : ReadM RawInode := .peek fun c =>
  match c.fs.inodeCache ino with
  | some r => .ok r
  | none => .error .panic

def lookBlock (b : Nat) : ReadM Bytes := .peek fun c =>
  if b < c.fs.deviceBlocks then .ok (c.fs.disk b) else .error (.err .ioError)

def lookEntry (b i : Nat) : ReadM Nat := .peek fun c =>
  if b < c.fs.deviceBlocks then
    if i * 4 + 4 > c.fs.blockSize then .error (.err .invalidInput) else .ok (leNat (c.fs.disk b) (i * 4) 4)
  else .error (.err .ioError)

/-- The entry of `i_block` for a logical block, and the indices in the indirect blocks below it. -/
def blockPath (p logicalBlock : Nat) : Nat × List Nat :=
  let indirectLimit := DIRECT_BLOCKS + p
  let doubleLimit := indirectLimit + p * p
  if logicalBlock < DIRECT_BLOCKS then (logicalBlock, [])
  else if logicalBlock < indirectLimit then (12, [logicalBlock - DIRECT_BLOCKS])
  else if logicalBlock < doubleLimit then
    (13, [(logicalBlock - indirectLimit) / p, (logicalBlock - indirectLimit) % p])
  else
    (14, [(logicalBlock - doubleLimit) / (p * p), (logicalBlock - doubleLimit) / p % p, (logicalBlock - doubleLimit) % p])

/-- Follow pointers until one is 0. -/
def walk : (b : Nat) → List Nat → ReadM Nat
  | b, [] => return b
  | b, i :: is => if b = 0 then return 0 else do walk (← lookEntry b i) is

/-- `resolve_block_id`. -/
def resolveSteps (ino logicalBlock : Nat) : ReadM Nat := do
  let blockSize ← lookBlockSize
  let r ← lookRaw ino
  walk (r.block (blockPath (blockSize / 4) logicalBlock).1) (blockPath (blockSize / 4) logicalBlock).2

/-- The blocks of one request, each at its own moment. -/
def lookBlocks : (start count : Nat) → ReadM (List Bytes)
  | _, 0 => return []
  | start, count + 1 => do
    let b ← lookBlock start
    return b :: (← lookBlocks (start + 1) count)

def readFsBlocksSteps (start count : Nat) : ReadM Bytes := do
  let _ ← .peek fun (c : Shared) => if start + count ≤ c.fs.deviceBlocks then .ok () else .error (.err .ioError)
  let blocks ← lookBlocks start count
  let blockSize ← lookBlockSize
  return fun j => blocks.getD (j / blockSize) (fun _ => 0) (j % blockSize)

def extendRunSteps (ino logicalBlock phys : Nat) : (n run : Nat) → ReadM Nat
  | 0, run => return run
  | n + 1, run => do
    let np ← resolveSteps ino ((logicalBlock % 2 ^ 32 + run) % 2 ^ 32)
    if np = (phys + run) % 2 ^ 32 then extendRunSteps ino logicalBlock phys n (run + 1) else return run

def readPartialSteps (ino logicalBlock blockOffset remaining : Nat) : ReadM (Bytes × Nat) := do
  let blockSize ← lookBlockSize
  let chunk := min remaining (blockSize - blockOffset)
  let phys ← resolveSteps ino (logicalBlock % 2 ^ 32)
  if phys = 0 then return (fun _ => 0, chunk)
  else return (dropBytes (← lookBlock phys) blockOffset, chunk)

def readChunkSteps (ino fileOffset remaining : Nat) : ReadM (Bytes × Nat) := do
  let blockSize ← lookBlockSize
  let logicalBlock := fileOffset / blockSize
  let blockOffset := fileOffset % blockSize
  if blockOffset = 0 ∧ remaining ≥ blockSize then
    let phys ← resolveSteps ino (logicalBlock % 2 ^ 32)
    if phys ≠ 0 then
      let maxRun := min (remaining / blockSize) MAX_BULK_BLOCKS
      let run ← extendRunSteps ino logicalBlock phys (maxRun - 1) 1
      return (← readFsBlocksSteps phys run, run * blockSize)
    else readPartialSteps ino logicalBlock blockOffset remaining
  else readPartialSteps ino logicalBlock blockOffset remaining

def readLoopSteps (ino offset bytesToRead : Nat) : (fuel bytesRead : Nat) → Bytes → ReadM Bytes
  | 0, _, buf => return buf
  | fuel + 1, bytesRead, buf =>
    if bytesToRead ≤ bytesRead then return buf
    else do
      let (data, n) ← readChunkSteps ino (offset + bytesRead) (bytesToRead - bytesRead)
      readLoopSteps ino offset bytesToRead fuel (bytesRead + n) (blit buf bytesRead n data)

def lookSize (ino : Nat) : ReadM Nat := .peek fun c =>
  match c.fs.inodeCache ino with
  | some r => .ok
    (if r.fmt = EXT2_S_IFREG ∧ c.fs.superBlock.hasLargeFile then r.dirAcl <<< 32 ||| r.size32 else r.size32)
  | none => .error .panic

/-- `read_at`. -/
def readAtSteps (ino offset len : Nat) : ReadM (Bytes × Nat) := do
  let fileSize ← lookSize ino
  if offset ≥ fileSize ∨ len = 0 then return (fun _ => 0, 0)
  else
    let bytesToRead := min len (fileSize - offset)
    return (← readLoopSteps ino offset bytesToRead bytesToRead 0 fun _ => 0, bytesToRead)

/-! ## Without other tasks -/

/-- The steps do what the call does, with results related by `E`. -/
def Matches {α β : Type} (E : α → β → Prop) (c : Shared) (p : ReadM α) (x : FsM β) : Prop :=
  match p.alone c with
  | .ok a => ∃ b, x c.fs = .ok b c.fs ∧ E a b
  | .error e => x c.fs = .error e c.fs

section Alone

variable {α β γ δ : Type} {E : α → β → Prop} {F : γ → δ → Prop} {c : Shared} {p : ReadM α} {x : FsM β}

theorem Matches.bind {f : α → ReadM γ} {g : β → FsM δ} (h : Matches E c p x)
    (hf : ∀ a b, E a b → Matches F c (f a) (g b)) : Matches F c (p >>= f) (x >>= g) := by
  unfold Matches at h ⊢
  rw [Look.alone_bind]
  cases hp : p.alone c with
  | error e =>
    rw [hp] at h
    exact bind_error h
  | ok a =>
    rw [hp] at h
    obtain ⟨b, hx, hab⟩ := h
    rw [bind_ok hx]
    exact hf a b hab

theorem Matches.pure {a : α} {b : β} (h : E a b) : Matches E c (Pure.pure a) (Pure.pure b) := ⟨b, rfl, h⟩

/-- The call looks at the state once. -/
theorem Matches.get {f : Nat → ReadM γ} {g : Ext2Fs → FsM δ} (h : Matches F c (f c.fs.blockSize) (g c.fs)) :
    Matches F c (lookBlockSize >>= f) (get >>= g) := h

theorem lookRaw_matches (ino : Nat) : Matches Eq c (lookRaw ino) (raw ino) := by
  unfold Matches lookRaw Look.peek
  simp only [Look.alone]
  cases hr : c.fs.inodeCache ino with
  | none =>
    rw [raw, get_bind, hr]
    rfl
  | some r => exact ⟨r, raw_eq hr, rfl⟩

theorem lookBlock_matches (b : Nat) : Matches Eq c (lookBlock b) (readFsBlock b) := by
  unfold Matches lookBlock Look.peek
  simp only [Look.alone]
  rw [readFsBlock, get_bind]
  split
  · rename_i h
    split at h
    · rename_i hb
      injection h with h
      rw [if_pos hb]
      exact ⟨_, rfl, h.symm⟩
    · cases h
  · rename_i h
    split at h
    · cases h
    · rename_i hb
      injection h with h
      rw [if_neg hb, ← h]
      rfl

theorem lookEntry_matches (b i : Nat) : Matches Eq c (lookEntry b i) (readIndirectEntry b i) := by
  unfold Matches lookEntry Look.peek
  simp only [Look.alone]
  rw [readIndirectEntry, get_bind]
  by_cases hb : b < c.fs.deviceBlocks
  · rw [if_pos hb, bind_ok (readFsBlock_eq hb)]
    by_cases hi : i * 4 + 4 > c.fs.blockSize
    · rw [if_pos hi, if_pos hi]
      rfl
    · rw [if_neg hi, if_neg hi]
      exact ⟨_, rfl, rfl⟩
  · rw [if_neg hb]
    apply bind_error
    rw [readFsBlock, get_bind, if_neg hb]
    rfl

theorem walk_cons_matches {b i : Nat} {is : List Nat} {g : Nat → FsM Nat} (h : ∀ b, Matches Eq c (walk b is) (g b)) :
    Matches Eq c (walk b (i :: is)) (if b = 0 then pure 0 else readIndirectEntry b i >>= g) := by
  unfold walk
  split
  · exact .pure rfl
  · apply (lookEntry_matches b i).bind
    rintro b' _ rfl
    exact h b'

theorem walk_last_matches {b i : Nat} :
    Matches Eq c (walk b [i]) (if b = 0 then pure 0 else readIndirectEntry b i) := by
  have h := @walk_cons_matches c b i [] pure fun b => .pure rfl
  rwa [bind_pure] at h

theorem resolveSteps_matches (ino lb : Nat) : Matches Eq c (resolveSteps ino lb) (resolveBlockId ino lb) := by
  have hptrs : Matches (fun size p => p = size / 4) c lookBlockSize ptrsPerBlock := ⟨_, rfl, rfl⟩
  unfold resolveSteps resolveBlockId
  apply hptrs.bind
  rintro size p rfl
  apply (lookRaw_matches ino).bind
  rintro r _ rfl
  dsimp only [blockPath]
  split
  · exact .pure rfl
  · split
    · exact walk_last_matches
    · split
      · exact walk_cons_matches fun _ => walk_last_matches
      · exact walk_cons_matches fun _ => walk_cons_matches fun _ => walk_last_matches

/-- Blocks of one request. -/
def SameUpTo (len : Nat) (data data' : Bytes) : Prop := ∀ j < len, data j = data' j

theorem lookBlocks_alone {start count : Nat} (h : start + count ≤ c.fs.deviceBlocks) :
    (lookBlocks start count).alone c = .ok ((List.range count).map fun i => c.fs.disk (start + i)) := by
  induction count generalizing start with
  | zero => rfl
  | succ count ih =>
    have hblock : (lookBlock start).alone c = .ok (c.fs.disk start) := by
      show (if start < c.fs.deviceBlocks then _ else _) = _
      rw [if_pos (by omega)]
    unfold lookBlocks
    rw [Look.alone_bind, hblock]
    show (lookBlocks (start + 1) count >>= _).alone c = _
    rw [Look.alone_bind, ih (by omega), List.range_succ_eq_map, List.map_cons, List.map_map]
    show Except.ok (c.fs.disk start :: _) = _
    congr 2
    apply List.map_congr_left
    intro i _
    show c.fs.disk (start + 1 + i) = c.fs.disk (start + (i + 1))
    rw [Nat.add_assoc, Nat.add_comm 1 i]

theorem readFsBlocksSteps_matches (start count : Nat) :
    Matches (SameUpTo (count * c.fs.blockSize)) c (readFsBlocksSteps start count) (readFsBlocks start count) := by
  by_cases hin : start + count ≤ c.fs.deviceBlocks
  · have halone : (readFsBlocksSteps start count).alone c = .ok fun j =>
        ((List.range count).map fun i => c.fs.disk (start + i)).getD (j / c.fs.blockSize) (fun _ => 0)
          (j % c.fs.blockSize) := by
      unfold readFsBlocksSteps
      rw [Look.alone_bind, Look.alone_peek, if_pos hin]
      show (lookBlocks start count >>= _).alone c = _
      rw [Look.alone_bind, lookBlocks_alone hin]
      rfl
    unfold Matches
    rw [halone, readFsBlocks, get_bind, if_pos hin]
    refine ⟨_, rfl, fun j hj => ?_⟩
    have hdiv : j / c.fs.blockSize < count := Nat.div_lt_of_lt_mul (by rwa [Nat.mul_comm])
    dsimp only
    rw [List.getD_eq_getElem?_getD, List.getElem?_map, List.getElem?_range hdiv]
    rfl
  · have halone : (readFsBlocksSteps start count).alone c = .error (.err .ioError) := by
      unfold readFsBlocksSteps
      rw [Look.alone_bind, Look.alone_peek, if_neg hin]
      rfl
    unfold Matches
    rw [halone, readFsBlocks, get_bind, if_neg hin]
    rfl

theorem extendRunSteps_matches (ino lb phys n : Nat) :
    ∀ run, Matches Eq c (extendRunSteps ino lb phys n run) (extendRun ino lb phys n run) := by
  induction n with
  | zero => exact fun run => .pure rfl
  | succ n ih =>
    intro run
    unfold extendRunSteps extendRun
    apply (resolveSteps_matches _ _).bind
    rintro np _ rfl
    split
    · exact ih _
    · exact .pure rfl

/-- The same number of bytes, and the same bytes. -/
def SameChunk (a b : Bytes × Nat) : Prop := a.2 = b.2 ∧ SameUpTo a.2 a.1 b.1

theorem readPartialSteps_matches (ino lb off rem : Nat) :
    Matches SameChunk c (readPartialSteps ino lb off rem) (readPartial ino lb off rem) := by
  unfold readPartialSteps readPartial
  apply Matches.get
  apply (resolveSteps_matches _ _).bind
  rintro phys _ rfl
  split
  · exact .pure ⟨rfl, fun _ _ => rfl⟩
  · apply (lookBlock_matches _).bind
    rintro block _ rfl
    exact .pure ⟨rfl, fun _ _ => rfl⟩

theorem readChunkSteps_matches (ino off rem : Nat) :
    Matches SameChunk c (readChunkSteps ino off rem) (readChunk ino off rem) := by
  unfold readChunkSteps readChunk
  apply Matches.get
  dsimp only
  split
  · apply (resolveSteps_matches _ _).bind
    rintro phys _ rfl
    split
    · apply (extendRunSteps_matches _ _ _ _ _).bind
      rintro run _ rfl
      apply (readFsBlocksSteps_matches _ _).bind
      intro data data' h
      exact .pure ⟨rfl, h⟩
    · exact readPartialSteps_matches _ _ _ _
  · exact readPartialSteps_matches _ _ _ _

theorem blit_sameUpTo {buf data data' : Bytes} {i n : Nat} (h : SameUpTo n data data') :
    blit buf i n data = blit buf i n data' := by
  funext j
  by_cases hj : i ≤ j ∧ j < i + n
  · rw [blit_of_inside hj.1 hj.2, blit_of_inside hj.1 hj.2, h (j - i) (by omega)]
  · rw [blit_of_outside (by omega), blit_of_outside (by omega)]

theorem readLoopSteps_matches (ino off len fuel : Nat) :
    ∀ n buf, Matches Eq c (readLoopSteps ino off len fuel n buf) (readLoop ino off len fuel n buf) := by
  induction fuel with
  | zero => exact fun n buf => .pure rfl
  | succ fuel ih =>
    intro n buf
    unfold readLoopSteps readLoop
    split
    · exact .pure rfl
    · apply (readChunkSteps_matches _ _ _).bind
      rintro ⟨data, k⟩ ⟨data', k'⟩ ⟨hk, hdata⟩
      dsimp only at hk hdata ⊢
      subst hk
      rw [blit_sameUpTo hdata]
      exact ih _ _

/-- **Without other tasks** the steps are `read_at`. -/
theorem readAtSteps_alone (ino off len : Nat) : Matches Eq c (readAtSteps ino off len) (readAt ino off len) := by
  have hsize : Matches Eq c (lookSize ino) (size ino) := by
    unfold Matches lookSize size
    rw [Look.alone_peek, get_bind]
    cases hr : c.fs.inodeCache ino with
    | none => exact bind_error (by rw [raw, get_bind, hr]; rfl)
    | some r =>
      rw [bind_ok (raw_eq hr)]
      exact ⟨_, rfl, rfl⟩
  unfold readAtSteps readAt
  apply hsize.bind
  rintro fileSize _ rfl
  split
  · exact .pure rfl
  · apply (readLoopSteps_matches _ _ _ _ _ _).bind
    rintro buf _ rfl
    exact .pure rfl

end Alone

/-! ## The file at one moment -/

/-- Follow pointers at one moment; none if one of them leaves the device. -/
def follow (fs : Ext2Fs) : (b : Nat) → List Nat → Option Nat
  | b, [] => some b
  | b, i :: is =>
    if b = 0 then some 0
    else if b < fs.deviceBlocks ∧ i * 4 + 4 ≤ fs.blockSize then follow fs (leNat (fs.disk b) (i * 4) 4) is
    else none

/-- A pointer of the block tree of inode `ino`. -/
def pointerAt (fs : Ext2Fs) (ino slot : Nat) (is : List Nat) : Option Nat :=
  (fs.inodeCache ino).bind fun r => follow fs (r.block slot) is

/-- The block of a logical one, 0 for a hole. -/
def mapped (fs : Ext2Fs) (ino logicalBlock : Nat) : Option Nat :=
  pointerAt fs ino (blockPath (fs.blockSize / 4) logicalBlock).1 (blockPath (fs.blockSize / 4) logicalBlock).2

/-- Block `b` holds data of `ino`, zeros or metadata. -/
def Shared.Own (c : Shared) (ino b : Nat) : Prop := c.writer b = none ∨ c.writer b = some ino

/-- At this moment the file has byte `v` at `offset`: it lies in a block of the file that holds its data, or in a hole. -/
def Shows (c : Shared) (ino offset : Nat) (v : Byte) : Prop :=
  (mapped c.fs ino (offset / c.fs.blockSize) = some 0 ∧ v = 0) ∨
    ∃ b, b ≠ 0 ∧ mapped c.fs ino (offset / c.fs.blockSize) = some b ∧ v = c.fs.disk b (offset % c.fs.blockSize) ∧
      c.Own ino b

/-! ## What other tasks may do -/

/-- A place of the block tree: below `i_block[12]`, `i_block[13]` and `i_block[14]` there are one, two and three levels. -/
def InTree (slot : Nat) (is : List Nat) : Prop := slot < 15 ∧ is.length ≤ slot - 11

/-- No pointer of the file is cleared or changed; holes may be filled. -/
structure Grows (ino : Nat) (fs fs' : Ext2Fs) : Prop where
  blockSize : fs'.blockSize = fs.blockSize
  deviceBlocks : fs'.deviceBlocks = fs.deviceBlocks
  pointer : ∀ slot is b, InTree slot is → b ≠ 0 → pointerAt fs ino slot is = some b →
    pointerAt fs' ino slot is = some b

/-- A step that keeps the pointers of the file, that links only blocks with its own data to it, and that writes nothing
else into its blocks. -/
structure Spares (ino : Nat) (c c' : Shared) : Prop where
  grows : Grows ino c.fs c'.fs
  linked : ∀ lb b, b ≠ 0 → mapped c'.fs ino lb = some b →
    (mapped c.fs ino lb = some b ∧ c'.writer b = c.writer b) ∨ c'.Own ino b

/-- The steps of other tasks. -/
def Others (ino : Nat) (c c' : Shared) : Prop := ∃ a, c' = c.act a ∧ Spares ino c c'

/-- The blocks of the file hold its own data. -/
def Owned (ino : Nat) (c : Shared) : Prop := ∀ lb b, b ≠ 0 → mapped c.fs ino lb = some b → c.Own ino b

section Stable

variable {ino : Nat} {fs fs' fs'' : Ext2Fs} {c c' : Shared}

theorem blockPath_inTree (p lb : Nat) : InTree (blockPath p lb).1 (blockPath p lb).2 := by
  dsimp only [blockPath]
  split
  · rename_i hdirect
    exact ⟨by dsimp only [DIRECT_BLOCKS] at hdirect ⊢; omega, Nat.zero_le _⟩
  · split
    · exact ⟨show 12 < 15 by decide, Nat.le_refl 1⟩
    · split
      · exact ⟨show 13 < 15 by decide, Nat.le_refl 2⟩
      · exact ⟨show 14 < 15 by decide, Nat.le_refl 3⟩

theorem Grows.refl (fs : Ext2Fs) : Grows ino fs fs := ⟨rfl, rfl, fun _ _ _ _ _ h => h⟩

theorem Grows.trans (h : Grows ino fs fs') (h' : Grows ino fs' fs'') : Grows ino fs fs'' :=
  ⟨h'.blockSize.trans h.blockSize, h'.deviceBlocks.trans h.deviceBlocks,
    fun slot is b htree hb hp => h'.pointer slot is b htree hb (h.pointer slot is b htree hb hp)⟩

theorem grows_of_others (h : ReflTransGen (Others ino) c c') : Grows ino c.fs c'.fs := by
  induction h with
  | refl => exact .refl _
  | tail _ hstep ih =>
    obtain ⟨a, -, hspares⟩ := hstep
    exact ih.trans hspares.grows

theorem Grows.mapped (h : Grows ino fs fs') {lb b : Nat} (hb : b ≠ 0) (hm : mapped fs ino lb = some b) :
    mapped fs' ino lb = some b := by
  unfold Ext2.mapped at hm ⊢
  rw [h.blockSize]
  exact h.pointer _ _ b (blockPath_inTree _ _) hb hm

/-- One step keeps the blocks of the file its own. -/
theorem Spares.owned (h : Spares ino c c') (howned : Owned ino c) : Owned ino c' := by
  intro lb b hb hm
  rcases h.linked lb b hb hm with ⟨hm₀, hw⟩ | hown
  · have hown := howned lb b hb hm₀
    unfold Shared.Own at hown ⊢
    rwa [hw]
  · exact hown

end Stable

/-! ## What a reader is sure of -/

section Sure

variable {ino blockSize deviceBlocks : Nat} {S : Shared → Prop} {c : Shared}
  (hS : ∀ c, S c → c.fs.blockSize = blockSize ∧ c.fs.deviceBlocks = deviceBlocks ∧ Owned ino c)

/-- A pointer that was read: it is still there, or it was 0 at a moment of the run. -/
def PointerRead (S : Shared → Prop) (ino slot : Nat) (is : List Nat) (b : Nat) (c : Shared) : Prop :=
  (b ≠ 0 → pointerAt c.fs ino slot is = some b) ∧ (b = 0 → ∃ t, S t ∧ pointerAt t.fs ino slot is = some 0)

theorem PointerRead.later {slot : Nat} {is : List Nat} {b : Nat} {c' : Shared} (h : PointerRead S ino slot is b c)
    (htree : InTree slot is) (hc : ReflTransGen (Others ino) c c') : PointerRead S ino slot is b c' :=
  ⟨fun hb => (grows_of_others hc).pointer slot is b htree hb (h.1 hb), h.2⟩

include hS

/-- Bytes of the file from `offset` on. -/
def Bytewise (S : Shared → Prop) (ino offset : Nat) (data : Bytes) (n : Nat) : Prop :=
  ∀ j < n, ∃ t, S t ∧ Shows t ino (offset + j) (data j)

/-- A run of blocks of the file that are contiguous on the device, as far as their numbers have 32 bits. -/
def Contiguous (ino lb phys run : Nat) (c : Shared) : Prop :=
  ∀ k < run, phys + k < 2 ^ 32 → mapped c.fs ino (lb + k) = some (phys + k)

omit hS in
theorem Contiguous.later {lb phys run : Nat} {c' : Shared} (h : Contiguous ino lb phys run c) (hphys : phys ≠ 0)
    (hc : ReflTransGen (Others ino) c c') : Contiguous ino lb phys run c' :=
  fun k hk hlt => (grows_of_others hc).mapped (by omega) (h k hk hlt)

omit hS in
/-- A chunk goes behind the bytes that were read before. -/
theorem Bytewise.blit {offset n k : Nat} {buf data : Bytes} (h : Bytewise S ino offset buf n)
    (hdata : Bytewise S ino (offset + n) data k) : Bytewise S ino offset (blit buf n k data) (n + k) := by
  intro j hj
  by_cases hlt : j < n
  · rw [blit_of_outside (.inl hlt)]
    exact h j hlt
  · rw [blit_of_inside (by omega) hj]
    have hbyte := hdata (j - n) (by omega)
    rwa [show offset + n + (j - n) = offset + j by omega] at hbyte

end Sure

instance (c : Shared) (ino b : Nat) : Decidable (c.Own ino b) :=
  inferInstanceAs (Decidable (c.writer b = none ∨ c.writer b = some ino))

theorem shows_of_mapped {c : Shared} {ino offset b : Nat} {v : Byte}
    (hm : mapped c.fs ino (offset / c.fs.blockSize) = some b) : Shows c ino offset v ↔
    if b = 0 then v = 0 else v = c.fs.disk b (offset % c.fs.blockSize) ∧ c.Own ino b := by
  unfold Shows
  rw [hm]
  split
  · rename_i hb
    subst hb
    constructor
    · rintro (⟨-, hv⟩ | ⟨b, hb, heq, -⟩)
      · exact hv
      · exact absurd (Option.some.inj heq).symm hb
    · exact fun hv => .inl ⟨rfl, hv⟩
  · rename_i hb
    constructor
    · rintro (⟨heq, -⟩ | ⟨b', -, heq, h⟩)
      · exact absurd (Option.some.inj heq) hb
      · obtain rfl := Option.some.inj heq
        exact h
    · exact fun h => .inr ⟨b, hb, rfl, h⟩

instance (c : Shared) (ino offset : Nat) (v : Byte) : Decidable (Shows c ino offset v) :=
  match hm : mapped c.fs ino (offset / c.fs.blockSize) with
  | none => .isFalse fun h => by
    rcases h with ⟨h, -⟩ | ⟨b, -, h, -⟩
    · exact absurd (hm.symm.trans h) (by simp)
    · exact absurd (hm.symm.trans h) (by simp)
  | some b => decidable_of_iff _ (shows_of_mapped hm).symm

end Koros.Ext2
