import Koros.Fs.Refine
import Koros.Lib.Programs
import Mathlib.Algebra.Ring.Nat

/-!
# Reading a file through the block cache

`read_at` of `kor-ext2/src/inode.rs` over the block layer with its cache: single blocks and pointer blocks come through
the cache, runs of contiguous full blocks in one request beside it, after a flush of their cached copies. An inode is given
by its size and its fifteen block pointers.

- `each_run`: a run that is read at once has the bytes that its blocks have one by one;
- `readChunk_round`, `readLoop_value`: every round, and the loop;
- `each_gives`, `place_error`: which bytes these are, and the only error;
- **`readAt_cached`**: the bulk path agrees with block-by-block reading, for every state of the cache.
-/
set_option autoImplicit false

namespace Koros.Fs

open Koros.Lib

/-! ## The source -/

inductive ReadError where
  | ioError
  | invalidInput
deriving DecidableEq, Repr

/-- A read of the block layer. -/
inductive ReadOp where
  | fsBlock (fsBlock : Nat)
  | fsBlocks (start count : Nat)

def ReadOp.op : ReadOp → Op
  | fsBlock b => .readFsBlock b
  | fsBlocks start count => .readFsBlocks start count

abbrev Reader (α : Type) := Prog ReadOp Result ReadError α

/-- The size of a file and `i_block`. -/
structure InodeData where
  size : Nat
  block : Nat → Nat

def MAX_BULK_BLOCKS : Nat := 128

namespace Reader

def ofResult : Result → Reader Block
  | some data => .ret data
  | none => .fail .ioError

def readFsBlock (fsBlock : Nat) : Reader Block := .call (.fsBlock fsBlock) ofResult

def readFsBlocks (start count : Nat) : Reader Block := .call (.fsBlocks start count) ofResult

/-- `u32::from_le_bytes` of the four bytes at an offset. -/
def leU32 (b : Block) (i : Nat) : Nat :=
  (b.getD i 0).toNat + 256 * ((b.getD (i + 1) 0).toNat + 256 * ((b.getD (i + 2) 0).toNat + 256 * (b.getD (i + 3) 0).toNat))

section Source

variable (blockSize : Nat) (ino : InodeData)

/-- A pointer of an indirect block. -/
def readIndirectEntry (blockId index : Nat) : Reader Nat := do
  let buf ← readFsBlock blockId
  if index * 4 + 4 > blockSize then .fail .invalidInput else return leU32 buf (index * 4)

/-- The physical block of a logical one, 0 for a hole. -/
def resolveBlockId (logicalBlock : Nat) : Reader Nat :=
  let p := blockSize / 4
  let indirectLimit := 12 + p
  let doubleLimit := indirectLimit + p * p
  if logicalBlock < 12 then return ino.block logicalBlock
  else if logicalBlock < indirectLimit then
    if ino.block 12 = 0 then return 0 else readIndirectEntry blockSize (ino.block 12) (logicalBlock - 12)
  else if logicalBlock < doubleLimit then
    if ino.block 13 = 0 then return 0
    else do
      let remaining := logicalBlock - indirectLimit
      let indirectBlock ← readIndirectEntry blockSize (ino.block 13) (remaining / p)
      if indirectBlock = 0 then return 0 else readIndirectEntry blockSize indirectBlock (remaining % p)
  else
    if ino.block 14 = 0 then return 0
    else do
      let remaining := logicalBlock - doubleLimit
      let doubleBlock ← readIndirectEntry blockSize (ino.block 14) (remaining / (p * p))
      if doubleBlock = 0 then return 0
      else do
        let indirectBlock ← readIndirectEntry blockSize doubleBlock (remaining / p % p)
        if indirectBlock = 0 then return 0 else readIndirectEntry blockSize indirectBlock (remaining % p)

/-- The inner loop: extend a run of contiguous blocks by at most `n`. -/
def extendRun (logicalBlock phys : Nat) : (n run : Nat) → Reader Nat
  | 0, run => return run
  | n + 1, run => do
    let np ← resolveBlockId blockSize ino ((logicalBlock % 2 ^ 32 + run) % 2 ^ 32)
    if np = (phys + run) % 2 ^ 32 then extendRun logicalBlock phys n (run + 1) else return run

/-- A partial block or a hole. -/
def readPartial (fileOffset remaining : Nat) : Reader Block := do
  let blockOffset := fileOffset % blockSize
  let chunk := min remaining (blockSize - blockOffset)
  let phys ← resolveBlockId blockSize ino (fileOffset / blockSize % 2 ^ 32)
  if phys = 0 then return List.replicate chunk 0
  else do
    let data ← readFsBlock phys
    return (data.drop blockOffset).take chunk

/-- One round of the loop of `read_at`. -/
def readChunk (fileOffset remaining : Nat) : Reader Block :=
  if fileOffset % blockSize = 0 ∧ remaining ≥ blockSize then do
    let logicalBlock := fileOffset / blockSize
    let phys ← resolveBlockId blockSize ino (logicalBlock % 2 ^ 32)
    if phys ≠ 0 then do
      let run ← extendRun blockSize ino logicalBlock phys (min (remaining / blockSize) MAX_BULK_BLOCKS - 1) 1
      readFsBlocks phys run
    else readPartial blockSize ino fileOffset remaining
  else readPartial blockSize ino fileOffset remaining

/-- The loop with the given rounds, `remaining` bytes before its end. -/
def readLoop (round : (fileOffset remaining : Nat) → Reader Block) : (fuel fileOffset remaining : Nat) → Reader Block
  | 0, _, _ => return []
  | fuel + 1, fileOffset, remaining =>
    if remaining = 0 then return []
    else do
      let data ← round fileOffset remaining
      let rest ← readLoop round fuel (fileOffset + data.length) (remaining - data.length)
      return data ++ rest

/-- Read up to `len` bytes from `offset` on; a round reads at least one byte. -/
def readWith (round : (fileOffset remaining : Nat) → Reader Block) (offset len : Nat) : Reader Block :=
  if offset ≥ ino.size ∨ len = 0 then return []
  else readLoop round (min len (ino.size - offset)) offset (min len (ino.size - offset))

def readAt (offset len : Nat) : Reader Block := readWith ino (readChunk blockSize ino) offset len

/-- `read_at` without its fast path: every logical block is read by itself. -/
def readEach (offset len : Nat) : Reader Block := readWith ino (readPartial blockSize ino) offset len

end Source

/-! ## Values -/

/-- The answers are those of an array of blocks of `blockSize` bytes. -/
structure Answers (blockSize : Nat) (answer : ReadOp → Result) (data : Nat → Block) : Prop where
  fsBlock : ∀ b, answer (.fsBlock b) = some (data b)
  fsBlocks : ∀ b n, answer (.fsBlocks b n) = some ((List.range n).flatMap fun i => data (b + i))
  length_eq : ∀ b, (data b).length = blockSize

section Values

variable {blockSize : Nat} {ino : InodeData} {answer : ReadOp → Result} {data : Nat → Block}

/-- The block behind a logical one. -/
def place (answer : ReadOp → Result) (blockSize : Nat) (ino : InodeData) (q : Nat) : Except ReadError Nat :=
  (resolveBlockId blockSize ino (q % 2 ^ 32)).value answer

/-- The bytes of a logical block. -/
def bytesOf (data : Nat → Block) (blockSize phys : Nat) : Block := if phys = 0 then List.replicate blockSize 0 else data phys

theorem Answers.length_bytesOf (h : Answers blockSize answer data) (phys : Nat) :
    (bytesOf data blockSize phys).length = blockSize := by
  unfold bytesOf
  split
  · exact List.length_replicate
  · exact h.length_eq phys

theorem Answers.readFsBlock (h : Answers blockSize answer data) (b : Nat) : (readFsBlock b).value answer = .ok (data b) := by
  simp only [Reader.readFsBlock, Prog.value, h.fsBlock, ofResult]

theorem Answers.readFsBlocks (h : Answers blockSize answer data) (b n : Nat) :
    (readFsBlocks b n).value answer = .ok ((List.range n).flatMap fun i => data (b + i)) := by
  simp only [Reader.readFsBlocks, Prog.value, h.fsBlocks, ofResult]

theorem Answers.readPartial (h : Answers blockSize answer data) (ino : InodeData) (off rem : Nat) :
    (readPartial blockSize ino off rem).value answer = (place answer blockSize ino (off / blockSize)).map fun phys =>
      ((bytesOf data blockSize phys).drop (off % blockSize)).take (min rem (blockSize - off % blockSize)) := by
  simp only [Reader.readPartial, Prog.value_bind, place]
  cases hp : (resolveBlockId blockSize ino (off / blockSize % 2 ^ 32)).value answer with
  | error e => rfl
  | ok phys =>
    show Prog.value answer (if phys = 0 then _ else _) = Except.ok (List.take _ (List.drop _ (bytesOf data blockSize phys)))
    unfold bytesOf
    split
    · rw [Prog.value_pure, List.drop_replicate, List.take_replicate, Nat.min_eq_left (Nat.min_le_right _ _)]
    · rw [Prog.value_bind, h.readFsBlock]
      rfl

/-! ## Block by block -/

/-- What the loop without the fast path gives. -/
def each (answer : ReadOp → Result) (blockSize : Nat) (ino : InodeData) (off rem : Nat) : Except ReadError Block :=
  (readLoop (Reader.readPartial blockSize ino) rem off rem).value answer

theorem readLoop_ok {round : Nat → Nat → Reader Block} {off rem : Nat} (fuel : Nat) (hrem : rem ≠ 0) {b : Block}
    (hb : (round off rem).value answer = .ok b) : (readLoop round (fuel + 1) off rem).value answer =
      ((readLoop round fuel (off + b.length) (rem - b.length)).value answer).map (b ++ ·) := by
  rw [readLoop, if_neg hrem, Prog.value_bind, hb]
  show Prog.value answer (_ >>= _) = _
  rw [Prog.value_bind]
  cases (readLoop round fuel (off + b.length) (rem - b.length)).value answer <;> rfl

theorem readLoop_error {round : Nat → Nat → Reader Block} {off rem : Nat} (fuel : Nat) (hrem : rem ≠ 0) {e : ReadError}
    (he : (round off rem).value answer = .error e) : (readLoop round (fuel + 1) off rem).value answer = .error e := by
  rw [readLoop, if_neg hrem, Prog.value_bind, he]
  rfl

theorem readLoop_zero (round : Nat → Nat → Reader Block) (fuel off : Nat) : (readLoop round fuel off 0).value answer = .ok [] := by
  cases fuel <;> rfl

/-- The bytes that one round takes from the block behind it. -/
def slice (data : Nat → Block) (blockSize off rem phys : Nat) : Block :=
  ((bytesOf data blockSize phys).drop (off % blockSize)).take (min rem (blockSize - off % blockSize))

theorem Answers.length_slice (h : Answers blockSize answer data) (off rem phys : Nat) :
    (slice data blockSize off rem phys).length = min rem (blockSize - off % blockSize) := by
  rw [slice, List.length_take, List.length_drop, h.length_bytesOf]
  omega

variable (hpos : 0 < blockSize)
include hpos

/-- Every round of the loop takes at least a byte, so more rounds than bytes make no difference. -/
theorem readLoop_fuel (h : Answers blockSize answer data) {rem : Nat} : ∀ {fuel off : Nat}, rem ≤ fuel →
    (readLoop (Reader.readPartial blockSize ino) fuel off rem).value answer = each answer blockSize ino off rem := by
  induction rem using Nat.strong_induction_on with
  | _ rem ih =>
    intro fuel off hfuel
    by_cases hrem : rem = 0
    · subst hrem
      rw [each, readLoop_zero, readLoop_zero]
    obtain ⟨fuel, rfl⟩ := Nat.exists_eq_succ_of_ne_zero (by omega : fuel ≠ 0)
    obtain ⟨rem, rfl⟩ := Nat.exists_eq_succ_of_ne_zero hrem
    have hround := h.readPartial ino off (rem + 1)
    rw [each]
    cases hp : place answer blockSize ino (off / blockSize) with
    | error e =>
      rw [hp] at hround
      rw [readLoop_error fuel hrem hround, readLoop_error rem hrem hround]
    | ok phys =>
      rw [hp] at hround
      have hlen := h.length_slice off (rem + 1) phys
      have hmod := Nat.mod_lt off hpos
      rw [readLoop_ok (b := slice data blockSize off (rem + 1) phys) fuel hrem hround,
        readLoop_ok (b := slice data blockSize off (rem + 1) phys) rem hrem hround, hlen, ih _ (by omega) (by omega),
        ih _ (by omega) (by omega)]

theorem each_ok (h : Answers blockSize answer data) {off rem phys : Nat} (hrem : rem ≠ 0)
    (hp : place answer blockSize ino (off / blockSize) = .ok phys) :
    each answer blockSize ino off rem = (each answer blockSize ino (off + (slice data blockSize off rem phys).length)
      (rem - (slice data blockSize off rem phys).length)).map (slice data blockSize off rem phys ++ ·) := by
  have hround := h.readPartial ino off rem
  rw [hp] at hround
  obtain ⟨rem, rfl⟩ := Nat.exists_eq_succ_of_ne_zero hrem
  have hlen := h.length_slice off (rem + 1) phys
  have hmod := Nat.mod_lt off hpos
  rw [each, readLoop_ok (b := slice data blockSize off (rem + 1) phys) rem hrem hround, readLoop_fuel hpos h (by omega)]

omit hpos in
theorem each_error (h : Answers blockSize answer data) {off rem : Nat} (hrem : rem ≠ 0) {e : ReadError}
    (hp : place answer blockSize ino (off / blockSize) = .error e) : each answer blockSize ino off rem = .error e := by
  have hround := h.readPartial ino off rem
  rw [hp] at hround
  obtain ⟨rem, rfl⟩ := Nat.exists_eq_succ_of_ne_zero hrem
  exact readLoop_error rem hrem hround

/-- **A run** that is read at once has the bytes that its blocks have one by one. -/
theorem each_run (h : Answers blockSize answer data) (run : Nat) : ∀ {off rem : Nat} (phys : Nat), off % blockSize = 0 →
    run * blockSize ≤ rem → phys ≠ 0 → (∀ i < run, place answer blockSize ino (off / blockSize + i) = .ok (phys + i)) →
    each answer blockSize ino off rem = (each answer blockSize ino (off + run * blockSize) (rem - run * blockSize)).map
      (((List.range run).flatMap fun i => data (phys + i)) ++ ·) := by
  induction run with
  | zero =>
    intro off rem phys _ _ _ _
    rw [Nat.zero_mul, Nat.add_zero, Nat.sub_zero]
    cases each answer blockSize ino off rem <;> rfl
  | succ run ih =>
    intro off rem phys hoff hle hphys hplace
    rw [Nat.succ_mul] at hle
    have hfirst := hplace 0 (Nat.succ_pos run)
    rw [Nat.add_zero, Nat.add_zero] at hfirst
    have hslice : slice data blockSize off rem phys = data phys := by
      have hmin : min rem (blockSize - 0) = blockSize := by omega
      rw [slice, hoff, bytesOf, if_neg hphys, List.drop_zero, hmin]
      exact List.take_of_length_le (Nat.le_of_eq (h.length_eq phys))
    have hnext : (off + blockSize) / blockSize = off / blockSize + 1 := Nat.add_div_right off hpos
    rw [each_ok hpos h (by omega) hfirst, hslice, h.length_eq phys, ih (phys + 1) (by rw [Nat.add_mod_right]; exact hoff)
      (by omega) (Nat.succ_ne_zero phys) (fun i hi => ?_)]
    · have hend : off + blockSize + run * blockSize = off + (run + 1) * blockSize := by rw [Nat.succ_mul]; omega
      have hrest : rem - blockSize - run * blockSize = rem - (run + 1) * blockSize := by rw [Nat.succ_mul]; omega
      have hflat : ((List.range (run + 1)).flatMap fun i => data (phys + i)) =
          data phys ++ (List.range run).flatMap fun i => data (phys + 1 + i) := by
        rw [List.range_succ_eq_map, List.flatMap_cons, List.flatMap_map, Nat.add_zero]
        simp only [Nat.succ_eq_add_one, Nat.add_assoc, Nat.add_comm 1]
      rw [hend, hrest, hflat]
      cases each answer blockSize ino (off + (run + 1) * blockSize) (rem - (run + 1) * blockSize) with
      | error e => rfl
      | ok rest => exact congrArg Except.ok (List.append_assoc _ _ _).symm
    · rw [hnext, Nat.add_right_comm, Nat.add_assoc phys, Nat.add_comm 1]
      exact hplace (i + 1) (Nat.succ_lt_succ hi)

/-! ## The fast path -/

omit hpos in
/-- The run stays behind successive logical blocks, or the block that comes next has no place. -/
theorem extendRun_value (hptr : ∀ q phys, place answer blockSize ino q = .ok phys → phys + 1 < 2 ^ 32) {lb phys : Nat} :
    ∀ (n : Nat) {run : Nat}, 0 < run → (∀ i < run, place answer blockSize ino (lb + i) = .ok (phys + i)) →
    (∃ run', (extendRun blockSize ino lb phys n run).value answer = .ok run' ∧ run ≤ run' ∧ run' ≤ run + n ∧
        ∀ i < run', place answer blockSize ino (lb + i) = .ok (phys + i)) ∨
      ∃ e k, (extendRun blockSize ino lb phys n run).value answer = .error e ∧ k < run + n ∧
        (∀ i < k, place answer blockSize ino (lb + i) = .ok (phys + i)) ∧ place answer blockSize ino (lb + k) = .error e
  | 0, run, _, hrun => Or.inl ⟨run, rfl, Nat.le_refl _, Nat.le_refl _, hrun⟩
  | n + 1, run, hrunpos, hrun => by
    have hplace : (resolveBlockId blockSize ino ((lb % 2 ^ 32 + run) % 2 ^ 32)).value answer =
        place answer blockSize ino (lb + run) := by rw [place, Nat.mod_add_mod]
    have hlast := hptr _ _ (hrun (run - 1) (by omega))
    cases hnp : place answer blockSize ino (lb + run) with
    | error e =>
      refine Or.inr ⟨e, run, ?_, by omega, hrun, hnp⟩
      rw [extendRun, Prog.value_bind, hplace, hnp]
      rfl
    | ok np =>
      have hvalue : (extendRun blockSize ino lb phys (n + 1) run).value answer =
          (if np = (phys + run) % 2 ^ 32 then extendRun blockSize ino lb phys n (run + 1) else return run).value answer := by
        rw [extendRun, Prog.value_bind, hplace, hnp]
        rfl
      rw [hvalue]
      by_cases hnext : np = (phys + run) % 2 ^ 32
      · rw [if_pos hnext]
        -- the block before has a number below the last one, so the sum does not wrap
        rw [Nat.mod_eq_of_lt (by omega)] at hnext
        have hrun' : ∀ i < run + 1, place answer blockSize ino (lb + i) = .ok (phys + i) := by
          intro i hi
          rcases Nat.lt_or_eq_of_le (Nat.le_of_lt_succ hi) with hi | rfl
          · exact hrun i hi
          · rw [hnp, hnext]
        rcases extendRun_value hptr n (Nat.succ_pos run) hrun' with ⟨run', he, hle, hle', hall⟩ | ⟨e, k, he, hk, hall, herr⟩
        · exact Or.inl ⟨run', he, by omega, by omega, hall⟩
        · exact Or.inr ⟨e, k, he, by omega, hall, herr⟩
      · rw [if_neg hnext]
        exact Or.inl ⟨run, rfl, Nat.le_refl _, by omega, hrun⟩

/-- What a round must do: its bytes come first, and the rest is read as before; or the whole call fails. -/
def Round (answer : ReadOp → Result) (blockSize : Nat) (ino : InodeData) (off rem : Nat) (r : Except ReadError Block) : Prop :=
  match r with
  | .ok b => 0 < b.length ∧ b.length ≤ rem ∧
      each answer blockSize ino off rem = (each answer blockSize ino (off + b.length) (rem - b.length)).map (b ++ ·)
  | .error e => each answer blockSize ino off rem = .error e

theorem readPartial_round (h : Answers blockSize answer data) {off rem : Nat} (hrem : rem ≠ 0) :
    Round answer blockSize ino off rem ((Reader.readPartial blockSize ino off rem).value answer) := by
  rw [h.readPartial]
  cases hp : place answer blockSize ino (off / blockSize) with
  | error e => exact each_error h hrem hp
  | ok phys =>
    have hlen := h.length_slice off rem phys
    have hmod := Nat.mod_lt off hpos
    have hsize : 0 < (slice data blockSize off rem phys).length ∧ (slice data blockSize off rem phys).length ≤ rem := by
      rw [hlen]
      omega
    exact ⟨hsize.1, hsize.2, each_ok hpos h hrem hp⟩

omit hpos in
theorem Answers.length_run (h : Answers blockSize answer data) (phys run : Nat) :
    ((List.range run).flatMap fun i => data (phys + i)).length = run * blockSize := by
  rw [List.length_flatMap]
  simp [h.length_eq]

theorem bulk_round (h : Answers blockSize answer data)
    (hptr : ∀ q phys, place answer blockSize ino q = .ok phys → phys + 1 < 2 ^ 32) {off rem phys : Nat}
    (hoff : off % blockSize = 0) (hrem : blockSize ≤ rem) (hphys : phys ≠ 0)
    (hp : place answer blockSize ino (off / blockSize) = .ok phys) :
    Round answer blockSize ino off rem ((do
      let run ← extendRun blockSize ino (off / blockSize) phys (min (rem / blockSize) MAX_BULK_BLOCKS - 1) 1
      Reader.readFsBlocks phys run).value answer) := by
  have hfull : 1 ≤ rem / blockSize := (Nat.one_le_div_iff hpos).2 hrem
  have hmul : ∀ {k : Nat}, k ≤ rem / blockSize → k * blockSize ≤ rem := fun hk =>
    Nat.le_trans (Nat.mul_le_mul_right _ hk) (Nat.div_mul_le_self rem blockSize)
  have hmax : 1 + (min (rem / blockSize) MAX_BULK_BLOCKS - 1) ≤ rem / blockSize := by
    unfold MAX_BULK_BLOCKS
    omega
  have hone : ∀ i < 1, place answer blockSize ino (off / blockSize + i) = .ok (phys + i) := by
    intro i hi
    obtain rfl : i = 0 := by omega
    exact hp
  rw [Prog.value_bind]
  rcases extendRun_value hptr (min (rem / blockSize) MAX_BULK_BLOCKS - 1) Nat.one_pos hone with
    ⟨run, he, hle, hle', hall⟩ | ⟨e, k, he, hk, hall, herr⟩
  · rw [he]
    show Round answer blockSize ino off rem ((Reader.readFsBlocks phys run).value answer)
    rw [h.readFsBlocks]
    have hrun := hmul (Nat.le_trans hle' hmax)
    have hpos' : 0 < run * blockSize := Nat.mul_pos hle hpos
    simp only [Round, h.length_run]
    exact ⟨hpos', hrun, each_run hpos h run phys hoff hrun hphys hall⟩
  · rw [he]
    show each answer blockSize ino off rem = .error e
    have hk' : k + 1 ≤ rem / blockSize := by omega
    have hrest := hmul hk'
    rw [Nat.succ_mul] at hrest
    rw [each_run hpos h k phys hoff (by omega) hphys hall, each_error h (by omega) (e := e)]
    · rfl
    · rw [Nat.add_mul_div_right _ _ hpos]
      exact herr

theorem readChunk_round (h : Answers blockSize answer data)
    (hptr : ∀ q phys, place answer blockSize ino q = .ok phys → phys + 1 < 2 ^ 32) (off : Nat) {rem : Nat} (hrem : rem ≠ 0) :
    Round answer blockSize ino off rem ((readChunk blockSize ino off rem).value answer) := by
  unfold readChunk
  split
  · rename_i hfast
    rw [Prog.value_bind]
    cases hp : place answer blockSize ino (off / blockSize) with
    | error e =>
      rw [place] at hp
      rw [hp]
      exact each_error h hrem hp
    | ok phys =>
      have hp' := hp
      rw [place] at hp'
      rw [hp']
      show Round answer blockSize ino off rem (Prog.value answer (if phys ≠ 0 then _ else _))
      split
      · rename_i hphys
        exact bulk_round hpos h hptr hfast.1 hfast.2 hphys hp
      · exact readPartial_round hpos h hrem
  · exact readPartial_round hpos h hrem

/-- **The loop** with the fast path gives what the loop without it gives. -/
theorem readLoop_value (h : Answers blockSize answer data)
    (hptr : ∀ q phys, place answer blockSize ino q = .ok phys → phys + 1 < 2 ^ 32) {rem : Nat} : ∀ {fuel off : Nat},
    rem ≤ fuel → (readLoop (readChunk blockSize ino) fuel off rem).value answer = each answer blockSize ino off rem := by
  induction rem using Nat.strong_induction_on with
  | _ rem ih =>
    intro fuel off hfuel
    by_cases hrem : rem = 0
    · subst hrem
      rw [each, readLoop_zero, readLoop_zero]
    obtain ⟨fuel, rfl⟩ := Nat.exists_eq_succ_of_ne_zero (by omega : fuel ≠ 0)
    have hround := readChunk_round hpos h hptr off hrem
    cases hc : (readChunk blockSize ino off rem).value answer with
    | error e =>
      rw [hc] at hround
      rw [readLoop_error fuel hrem hc]
      exact hround.symm
    | ok b =>
      rw [hc] at hround
      obtain ⟨hb, hle, heach⟩ := hround
      rw [readLoop_ok fuel hrem hc, ih _ (by omega) (by omega), heach]

/-! ## The bytes -/

/-- What a call must give: each byte is the one of its logical block, or some block has no place. -/
def Gives (answer : ReadOp → Result) (data : Nat → Block) (blockSize : Nat) (ino : InodeData) (off n : Nat)
    (r : Except ReadError Block) : Prop :=
  match r with
  | .ok b => b.length = n ∧ ∀ i < n, ∃ phys, place answer blockSize ino ((off + i) / blockSize) = .ok phys ∧
      b[i]? = (bytesOf data blockSize phys)[(off + i) % blockSize]?
  | .error e => ∃ i < n, place answer blockSize ino ((off + i) / blockSize) = .error e

theorem slice_get (h : Answers blockSize answer data) {off rem phys i : Nat} (hi : i < (slice data blockSize off rem phys).length) :
    (off + i) / blockSize = off / blockSize ∧
      (slice data blockSize off rem phys)[i]? = (bytesOf data blockSize phys)[(off + i) % blockSize]? := by
  rw [h.length_slice] at hi
  have hmod := Nat.mod_lt off hpos
  have hsplit : off + i = (off % blockSize + i) + blockSize * (off / blockSize) := by
    have := Nat.mod_add_div off blockSize
    omega
  have hdiv : (off + i) / blockSize = off / blockSize := by
    rw [hsplit, Nat.add_mul_div_left _ _ hpos, Nat.div_eq_of_lt (by omega), Nat.zero_add]
  have hrem : (off + i) % blockSize = off % blockSize + i := by
    rw [hsplit, Nat.add_mul_mod_self_left, Nat.mod_eq_of_lt (by omega)]
  refine ⟨hdiv, ?_⟩
  rw [hrem, slice, List.getElem?_take_of_lt hi, List.getElem?_drop]

theorem each_gives (h : Answers blockSize answer data) {rem : Nat} : ∀ {off : Nat},
    Gives answer data blockSize ino off rem (each answer blockSize ino off rem) := by
  induction rem using Nat.strong_induction_on with
  | _ rem ih =>
    intro off
    by_cases hrem : rem = 0
    · subst hrem
      rw [each, readLoop_zero]
      exact ⟨rfl, nofun⟩
    cases hp : place answer blockSize ino (off / blockSize) with
    | error e =>
      rw [each_error h hrem hp]
      exact ⟨0, Nat.pos_of_ne_zero hrem, hp⟩
    | ok phys =>
      have hlen := h.length_slice off rem phys
      have hmod := Nat.mod_lt off hpos
      have hsize : 0 < (slice data blockSize off rem phys).length ∧ (slice data blockSize off rem phys).length ≤ rem := by
        rw [hlen]
        omega
      have hslice := fun i (hi : i < (slice data blockSize off rem phys).length) => slice_get hpos h hi
      rw [each_ok hpos h hrem hp]
      generalize slice data blockSize off rem phys = b at hsize hslice
      have hrest : Gives answer data blockSize ino (off + b.length) (rem - b.length) _ := ih (rem - b.length) (by omega)
      cases he : each answer blockSize ino (off + b.length) (rem - b.length) with
      | error e =>
        rw [he] at hrest
        obtain ⟨i, hi, hplace⟩ := hrest
        exact ⟨b.length + i, by omega, by rw [← Nat.add_assoc]; exact hplace⟩
      | ok rest =>
        rw [he] at hrest
        obtain ⟨hl, hget⟩ := hrest
        refine ⟨by rw [List.length_append, hl]; omega, fun i hi => ?_⟩
        by_cases hib : i < b.length
        · obtain ⟨hdiv, hbyte⟩ := hslice i hib
          refine ⟨phys, by rw [hdiv]; exact hp, ?_⟩
          rw [List.getElem?_append_left hib]
          exact hbyte
        · obtain ⟨phys', hplace, hbyte⟩ := hget (i - b.length) (by omega)
          have hoff : off + b.length + (i - b.length) = off + i := by omega
          rw [hoff] at hplace hbyte
          refine ⟨phys', hplace, ?_⟩
          rw [List.getElem?_append_right (by omega)]
          exact hbyte

omit hpos in
theorem Answers.readIndirectEntry (h : Answers blockSize answer data) (b i : Nat) :
    (readIndirectEntry blockSize b i).value answer =
      if i * 4 + 4 > blockSize then .error .invalidInput else .ok (leU32 (data b) (i * 4)) := by
  rw [Reader.readIndirectEntry, Prog.value_bind, h.readFsBlock]
  show Prog.value answer (if i * 4 + 4 > blockSize then _ else _) = _
  split <;> rfl

omit hpos in
/-- A logical block has a place unless it lies beyond the triple-indirect range. -/
theorem place_error (h : Answers blockSize answer data) {q : Nat} {e : ReadError} (he : place answer blockSize ino q = .error e) :
    e = .invalidInput := by
  have hentry : ∀ {b i : Nat} {e : ReadError}, (readIndirectEntry blockSize b i).value answer = .error e → e = .invalidInput := by
    intro b i e he
    rw [h.readIndirectEntry] at he
    split at he <;> cases he
    rfl
  have hbind : ∀ {p : Reader Nat} {f : Nat → Reader Nat}, (∀ {e}, p.value answer = .error e → e = .invalidInput) →
      (∀ a {e}, (f a).value answer = .error e → e = .invalidInput) →
      ∀ {e}, (p >>= f).value answer = .error e → e = .invalidInput := by
    intro p f hp hf e he
    rw [Prog.value_bind] at he
    cases hv : p.value answer with
    | error e' =>
      rw [hv] at he
      cases he
      exact hp hv
    | ok a =>
      rw [hv] at he
      exact hf a he
  have hpure : ∀ {a : Nat} {e : ReadError}, (pure a : Reader Nat).value answer = .error e → e = .invalidInput := nofun
  unfold place resolveBlockId at he
  revert he
  dsimp only
  split
  · exact hpure
  split
  · split
    · exact hpure
    · exact hentry
  split
  · split
    · exact hpure
    · refine hbind hentry fun a => ?_
      split
      · exact hpure
      · exact hentry
  · split
    · exact hpure
    · refine hbind hentry fun a => ?_
      split
      · exact hpure
      · refine hbind hentry fun a => ?_
        split
        · exact hpure
        · exact hentry

end Values

end Reader

/-! ## The block layer -/

open Reader

/-- A read of the block layer. -/
def FsIo.read (io : FsIo) (o : ReadOp) : Result × FsIo := io.step o.op

/-- The answers of an array of device blocks. -/
def answers (bs fsBs : Nat) (readOnly : Bool) (s : Nat → Block) (o : ReadOp) : Result := (specStep bs (fsBs / bs) readOnly s o.op).1

/-- A filesystem block of the array. -/
def fsBlockOf (bs fsBs : Nat) (s : Nat → Block) (b : Nat) : Block := readRun s (b * (fsBs / bs)) (fsBs / bs)

theorem length_readRun {s : Nat → Block} {bs : Nat} (h : ∀ id, (s id).length = bs) (start n : Nat) :
    (readRun s start n).length = n * bs := by
  rw [readRun, List.length_flatMap]
  simp [h]

theorem readRun_add (s : Nat → Block) (start m n : Nat) : readRun s start (m + n) = readRun s start m ++ readRun s (start + m) n := by
  unfold readRun
  rw [List.range_add, List.flatMap_append, List.flatMap_map]
  simp only [Nat.add_assoc]

theorem readRun_mul (s : Nat → Block) (per b n : Nat) :
    readRun s (b * per) (n * per) = (List.range n).flatMap fun i => readRun s ((b + i) * per) per := by
  induction n with
  | zero => simp [readRun]
  | succ n ih =>
    rw [Nat.succ_mul, readRun_add, ih, List.range_succ, List.flatMap_append, List.flatMap_singleton, Nat.add_mul]

section Layer

variable {bs fsBs : Nat} {readOnly : Bool} {io : FsIo} {s : Nat → Block}

theorem Represents.length_eq (h : Represents bs fsBs readOnly io s) (id : Nat) : (s id).length = bs := by
  rw [← h.logical_eq, ← h.device_eq, FsIo.logical, BlockCache.logical]
  cases he : io.cache.cache[id]? with
  | none => exact h.coherent.healthy.length_eq id
  | some e => exact (h.coherent.entry he).2

theorem Represents.array (h : Represents bs fsBs readOnly io s) (hdvd : bs ∣ fsBs) :
    Answers fsBs (answers bs fsBs readOnly s) (fsBlockOf bs fsBs s) where
  fsBlock := fun _ => rfl
  fsBlocks := fun b n => congrArg some (readRun_mul s (fsBs / bs) b n)
  length_eq := fun b => by
    rw [fsBlockOf, length_readRun h.length_eq, Nat.div_mul_cancel hdvd]

/-- A program of reads gets the answers of the array, and the layer goes on representing it. -/
theorem Represents.exec {α : Type} (h : Represents bs fsBs readOnly io s) (p : Reader α) :
    (p.exec FsIo.read io).1 = p.value (answers bs fsBs readOnly s) ∧ Represents bs fsBs readOnly (p.exec FsIo.read io).2 s := by
  refine Prog.exec_value (I := fun io => Represents bs fsBs readOnly io s) (fun io o h => ?_) p h
  have hfits : o.op.Fits bs (fsBs / bs) := by cases o <;> trivial
  have hsame : (specStep bs (fsBs / bs) readOnly s o.op).2 = s := by cases o <;> rfl
  obtain ⟨hres, hrep⟩ := step_refines h o.op hfits
  rw [hsame] at hrep
  exact ⟨hres, hrep⟩

/-- **Bulk reading equals block-by-block reading**: whatever the cache holds, `read_at` gives the bytes that reading every
logical block by itself gives, with zeros for holes, and leaves the content of all blocks as it was. It fails only for a
logical block beyond the triple-indirect range. No block pointer is the last 32-bit number, which no filesystem has. -/
theorem readAt_cached (h : Represents bs fsBs readOnly io s) (hdvd : bs ∣ fsBs) (hpos : 0 < fsBs) (ino : InodeData)
    (hptr : ∀ q phys, place (answers bs fsBs readOnly s) fsBs ino q = .ok phys → phys + 1 < 2 ^ 32) (offset len : Nat) :
    let r := (readAt fsBs ino offset len).exec FsIo.read io
    r.1 = ((readEach fsBs ino offset len).exec FsIo.read io).1 ∧
      Gives (answers bs fsBs readOnly s) (fsBlockOf bs fsBs s) fsBs ino offset (min len (ino.size - offset)) r.1 ∧
      (∀ e, r.1 = .error e → e = .invalidInput) ∧ Represents bs fsBs readOnly r.2 s := by
  have ha := h.array hdvd
  obtain ⟨hres, hrep⟩ := h.exec (readAt fsBs ino offset len)
  obtain ⟨heach, -⟩ := h.exec (readEach fsBs ino offset len)
  have hvalue : ∀ round : Nat → Nat → Reader Block, (∀ {rem fuel off : Nat}, rem ≤ fuel →
        (readLoop round fuel off rem).value (answers bs fsBs readOnly s) = each (answers bs fsBs readOnly s) fsBs ino off rem) →
      (readWith ino round offset len).value (answers bs fsBs readOnly s) =
        each (answers bs fsBs readOnly s) fsBs ino offset (min len (ino.size - offset)) := by
    intro round hloop
    unfold readWith
    split
    · rename_i hnone
      have hzero : min len (ino.size - offset) = 0 := by omega
      rw [hzero, each, readLoop_zero, Prog.value_pure]
    · exact hloop (Nat.le_refl _)
  have hbulk := hvalue (readChunk fsBs ino) (readLoop_value hpos ha hptr)
  have hplain := hvalue (readPartial fsBs ino) (readLoop_fuel hpos ha)
  have hgives : Gives (answers bs fsBs readOnly s) (fsBlockOf bs fsBs s) fsBs ino offset (min len (ino.size - offset)) _ :=
    each_gives hpos ha
  have hr : ((readAt fsBs ino offset len).exec FsIo.read io).1 =
      each (answers bs fsBs readOnly s) fsBs ino offset (min len (ino.size - offset)) := hres.trans hbulk
  refine ⟨hr.trans (heach.trans hplain).symm, hr ▸ hgives, fun e he => ?_, hrep⟩
  rw [hr] at he
  rw [he] at hgives
  obtain ⟨i, -, hplace⟩ := hgives
  exact place_error ha hplace

end Layer

/-- A layer with two dirty blocks and a direct write beside them. -/
def dirtyLayer : FsIo := (FsIo.run ⟨.new zeroDevice 2, 4, false⟩ [.writeFsBlocks 4 1 [5, 6, 7, 8], .writeFsBlock 3 [1, 2, 3, 4]]).2

/-- Two blocks that are contiguous, and a hole. -/
def sparseInode : InodeData := ⟨11, fun i => if i = 0 then 3 else if i = 1 then 4 else 0⟩

theorem sparseInode_place {answer : ReadOp → Result} {q phys : Nat} (h : place answer 4 sparseInode q = .ok phys) : phys ≤ 4 := by
  have hblock : ∀ i, sparseInode.block i ≤ 4 := by
    intro i
    unfold sparseInode
    dsimp only
    split
    · decide
    · split <;> decide
  have hnone : ∀ i, 2 ≤ i → sparseInode.block i = 0 := by
    intro i hi
    unfold sparseInode
    dsimp only
    rw [if_neg (by omega), if_neg (by omega)]
  unfold place resolveBlockId at h
  rw [hnone 12 (by decide), hnone 13 (by decide), hnone 14 (by decide)] at h
  dsimp only at h
  split at h
  · cases h
    exact hblock _
  · simp only [if_true, ite_self] at h
    cases h
    exact Nat.zero_le _

theorem readAt_cached_sparse :
    ((readAt 4 sparseInode 1 20).exec FsIo.read dirtyLayer).1 = ((readEach 4 sparseInode 1 20).exec FsIo.read dirtyLayer).1 ∧
      ((readEach 4 sparseInode 1 20).exec FsIo.read dirtyLayer).1 = .ok [2, 3, 4, 5, 6, 7, 8, 0, 0, 0] := by
  have hrep := (run_refines [.writeFsBlocks 4 1 [5, 6, 7, 8], .writeFsBlock 3 [1, 2, 3, 4]]
    (new_represents (d := zeroDevice) ⟨fun _ => rfl, fun _ => rfl⟩ (by decide) 2 4 false) (by simp [Op.Fits, zeroDevice])).2
  refine ⟨(readAt_cached hrep (by decide) (by decide) sparseInode (fun q phys h => ?_) 1 20).1, ?_⟩
  · have := sparseInode_place h
    omega
  · exact (hrep.exec (readEach 4 sparseInode 1 20)).1.trans rfl

end Koros.Fs
