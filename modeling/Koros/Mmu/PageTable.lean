import Koros.Mmu.Format

/-!
# The radix page-table engine

`AddrSpace` and `RCursor` of `kor-mmu/src/page_table.rs` over the descriptors of `kor-mmu/src/descriptor.rs`, for any
entry format. A page of physical memory is 512 words, named by its physical address.

A function that can panic (a failed `assert!` of `descriptor_of`, an underflowing level) returns `none` there; an error
that the code reports stays beside the state it leaves behind. The descriptor locks serialise transactions of different
CPUs; of one transaction only the check of `descriptor_of` that comes with taking a lock is visible.
-/
set_option autoImplicit false

namespace Koros.Mmu

open Koros.Frame

/-- Entries of a table page. -/
def ptEntries : Nat := 512

/-- Descriptors: one for each of the first `2 ^ 20` physical frames. -/
def maxDescriptors : Nat := maxTrackedFrames

inductive PageStatus where
  | invalid
  | mapped (phys : Nat) (flags : MappingFlags) (granularity : Nat)
  | allocated (flags : MappingFlags)
deriving DecidableEq, Repr

inductive MapError where
  | outOfMemory
  | blockedByExistingMapping
  | unsupported
deriving DecidableEq, Repr

inductive MapSize where
  | page4K
  | page2M
deriving DecidableEq, Repr

/-- Level-`n` index of `va`; level 0 is the 4 KiB level. -/
def tableIndex (va level : Nat) : Nat := (va >>> (12 + 9 * level)) &&& 0x1ff

/-- Bytes spanned by one entry at `level`. -/
def span (level : Nat) : Nat := 1 <<< (12 + 9 * level)

namespace MapSize

def bytes : MapSize → Nat
  | .page4K => pageSize
  | .page2M => 2 * 1024 * 1024

def level : MapSize → Nat
  | .page4K => 0
  | .page2M => 1

end MapSize

/-- Physical memory, the frame allocator and the descriptors' metadata. -/
structure Memory where
  frames : FrameAllocator
  /-- Word `i` of the page at `phys`. -/
  mem : (phys i : Nat) → Nat
  /-- The metadata array of each descriptor, allocated on demand. -/
  metadata : (frame : Nat) → Option (Nat → PageStatus)

namespace Memory

/-! ## Descriptors and table pages -/

/-- The descriptor's index; panics when `frame` is not page aligned or beyond the table. -/
def descriptorOf (frame : Nat) : Option Nat :=
  if frame % pageSize = 0 ∧ frame / pageSize < maxDescriptors then some (frame / pageSize) else none

def status (s : Memory) (page index : Nat) : Option PageStatus := do
  let d ← descriptorOf page
  some (match s.metadata d with
    | none => .invalid
    | some array => array index)

def setStatus (s : Memory) (page index : Nat) (st : PageStatus) : Option Memory := do
  let d ← descriptorOf page
  let array := (s.metadata d).getD fun _ => .invalid
  some { s with metadata := Function.update s.metadata d (some (Function.update array index st)) }

def dropMetadata (s : Memory) (page : Nat) : Option Memory := do
  let d ← descriptorOf page
  some { s with metadata := Function.update s.metadata d none }

/-- Taking a page's lock panics where `descriptor_of` does. -/
def lockPage (page : Nat) : Option Unit := (descriptorOf page).map fun _ => ()

def setEntry (s : Memory) (page index entry : Nat) : Memory :=
  { s with mem := Function.update s.mem page (Function.update (s.mem page) index entry) }

def zeroPage (s : Memory) (page : Nat) : Memory := { s with mem := Function.update s.mem page fun _ => 0 }

section Engine

variable (F : PteFormat)

/-! ## Queries -/

/-- `lock_range`: lock the pages that cover the whole range. -/
def lockRange (s : Memory) (start stop : Nat) : (level page : Nat) → Option Unit
  | 0, page => lockPage page
  | level + 1, page => do
    lockPage page
    let entry := s.mem page (tableIndex start (level + 1))
    let childSpan := span level
    if !F.entryPresent entry || F.entryIsLeaf entry (level + 1) || !decide (stop - 1 < (start / childSpan + 1) * childSpan)
    then some ()
    else lockRange s start stop level (F.entryPhys entry (level + 1))

/-- `query` from a table page on, with the status inherited so far. -/
def queryAt (s : Memory) (va : Nat) : (level page : Nat) → PageStatus → Option PageStatus
  | level, page, inherited => do
    let index := tableIndex va level
    let entry := s.mem page index
    let st ← s.status page index
    let inherited := if st = .invalid then inherited else st
    if !F.entryPresent entry then some inherited
    else
      let leaf := .mapped (F.entryPhys entry level) (F.entryFlags entry) (span level)
      match level with
      | 0 => some leaf
      | level' + 1 =>
        if F.entryIsLeaf entry level then some leaf else queryAt s va level' (F.entryPhys entry level) inherited

def query (s : Memory) (root va : Nat) : Option PageStatus := s.queryAt F va (F.levels - 1) root .invalid

/-! ## Mapping -/

/-- `split_leaf`: replace a larger leaf by a table of same-permission children. -/
def splitLeaf (s : Memory) (page index level : Nat) : Option (Except MapError Unit × Memory) := do
  let oldEntry := s.mem page index
  let oldPhys := F.entryPhys oldEntry level
  let oldFlags := F.entryFlags oldEntry
  match ← allocFrame s.frames with
  | (none, a) => some (.error .outOfMemory, { s with frames := a })
  | (some child, a) =>
    let filler := fun i =>
      if i < ptEntries then F.leafEntry (oldPhys + i * span (level - 1)) oldFlags (level - 1) else 0
    let s := { s with frames := a, mem := Function.update s.mem child filler }.setEntry page index (F.tableEntry child)
    let s ← s.setStatus page index .invalid
    lockPage child
    some (.ok (), s)

/-- The loop of `RCursor::map`, at a table page. -/
def mapAt (va phys : Nat) (flags : MappingFlags) (target : Nat) :
    (level page : Nat) → Memory → Option (Except MapError Unit × Memory)
  | level, page, s => do
    let index := tableIndex va level
    let entry := s.mem page index
    if level = target then
      -- a present leaf with `Invalid` metadata is filler of a split and may be refined
      let st ← if F.entryPresent entry then s.status page index else some .invalid
      if st ≠ .invalid then some (.error .blockedByExistingMapping, s)
      else
        let s ← (s.setEntry page index (F.leafEntry phys flags level)).setStatus page index
          (.mapped phys flags (span target))
        some (.ok (), s)
    else
      match level with
      | 0 => none
      | level' + 1 =>
        if !F.entryPresent entry then
          match ← allocFrame s.frames with
          | (none, a) => some (.error .outOfMemory, { s with frames := a })
          | (some child, a) =>
            let s := ({ s with frames := a }.zeroPage child).setEntry page index (F.tableEntry child)
            lockPage child
            mapAt va phys flags target level' child s
        else if F.entryIsLeaf entry level then
          match ← s.splitLeaf F page index level with
          | (.error e, s) => some (.error e, s)
          | (.ok (), s) => mapAt va phys flags target level' (F.entryPhys (s.mem page index) level) s
        else
          let child := F.entryPhys entry level
          lockPage child
          mapAt va phys flags target level' child s

/-- `RCursor::map`. -/
def cursorMap (s : Memory) (root va phys : Nat) (flags : MappingFlags) (size : MapSize) :
    Option (Except MapError Unit × Memory) :=
  let granularity := span size.level
  if va % granularity ≠ 0 ∨ phys % granularity ≠ 0 then some (.error .unsupported, s)
  else mapAt F va phys flags size.level (F.levels - 1) root s

/-! ## Unmapping -/

/-- One iteration of the loop of `unmap_in`; `recur` is `unmap_in` one level down. The state carries the count of
unmapped pages. -/
def unmapEntry (recur : (page base start stop : Nat) → Memory × Nat → Option (Memory × Nat))
    (level page base start stop : Nat) (st : Memory × Nat) (index : Nat) : Option (Memory × Nat) := do
  let (s, unmapped) := st
  let entry := s.mem page index
  if !F.entryPresent entry then some st
  else
    let entryStart := base + index * span level
    let entryEnd := entryStart + span level
    let fully := decide (start ≤ entryStart ∧ entryEnd ≤ stop)
    if F.entryIsLeaf entry level then
      if fully || level == 0 then
        let s ← (s.setEntry page index 0).setStatus page index .invalid
        some (s, unmapped + span level / pageSize)
      else some st
    else if level > 0 then
      let child := F.entryPhys entry level
      lockPage child
      let (s, unmapped) ← recur child entryStart (max start entryStart) (min stop entryEnd) (s, unmapped)
      -- free the child when it is now completely empty
      if (List.range ptEntries).all fun i => s.mem child i == 0 then
        let s ← s.dropMetadata child
        let a ← s.frames.freeFramesAt child 1
        some ({ s with frames := a }.setEntry page index 0, unmapped)
      else some (s, unmapped)
    else some st

def unmapIn : (level page base start stop : Nat) → Memory × Nat → Option (Memory × Nat)
  | level, page, base, start, stop, st =>
    let first := tableIndex start level
    let last := tableIndex (stop - 1) level
    let recur := match level with
      | 0 => fun _ _ _ _ _ => none
      | level' + 1 => unmapIn level'
    (List.range' first (last + 1 - first)).foldlM (unmapEntry F recur level page base start stop) st

/-- `RCursor::unmap`. -/
def cursorUnmap (s : Memory) (root start stop : Nat) : Option (Except MapError Nat × Memory) :=
  if start ≥ stop then some (.error .unsupported, s)
  else do
    let (s, unmapped) ← unmapIn F (F.levels - 1) root 0 start stop (s, 0)
    some (.ok unmapped, s)

/-! ## Marking -/

/-- One iteration of the loop of `mark_in`; `recur` is `mark_in` one level down. -/
def markEntry (flags : MappingFlags) (recur : (page base start stop : Nat) → Memory → Option Memory)
    (level page base start stop : Nat) (s : Memory) (index : Nat) : Option Memory := do
  let entryStart := base + index * span level
  let entryEnd := entryStart + span level
  let entry := s.mem page index
  if start ≤ entryStart ∧ entryEnd ≤ stop then s.setStatus page index (.allocated flags)
  else if level > 0 ∧ F.entryPresent entry ∧ ¬ F.entryIsLeaf entry level then
    let child := F.entryPhys entry level
    lockPage child
    recur child entryStart (max start entryStart) (min stop entryEnd) s
  else some s

def markIn (flags : MappingFlags) : (level page base start stop : Nat) → Memory → Option Memory
  | level, page, base, start, stop, s =>
    let first := tableIndex start level
    let last := tableIndex (stop - 1) level
    let recur := match level with
      | 0 => fun _ _ _ _ _ => none
      | level' + 1 => markIn flags level'
    (List.range' first (last + 1 - first)).foldlM (markEntry F flags recur level page base start stop) s

/-- `RCursor::mark`; the end of the range is not zero. -/
def cursorMark (s : Memory) (root start stop : Nat) (flags : MappingFlags) : Option Memory :=
  if stop = 0 then none else markIn F flags (F.levels - 1) root 0 start stop s

end Engine

end Memory

/-! ## Address spaces -/

namespace AddrSpace

variable (F : PteFormat)

/-- Allocate and zero a root table. -/
def new (s : Memory) : Option (Except MapError Nat × Memory) := do
  match ← allocFrame s.frames with
  | (none, a) => some (.error .outOfMemory, { s with frames := a })
  | (some root, a) => some (.ok root, { s with frames := a }.zeroPage root)

def lock (s : Memory) (root start stop : Nat) : Option Unit := s.lockRange F start stop (F.levels - 1) root

def map (s : Memory) (root va phys : Nat) (flags : MappingFlags) (size : MapSize) :
    Option (Except MapError Unit × Memory) := do
  lock F s root va (va + size.bytes)
  s.cursorMap F root va phys flags size

def translate (s : Memory) (root va : Nat) : Option (Option Nat) := do
  lock F s root va (va + pageSize)
  match ← s.query F root va with
  | .mapped phys _ granularity => some (some (phys + va % granularity))
  | _ => some none

def unmap (s : Memory) (root va : Nat) (size : MapSize) : Option (Except MapError Nat × Memory) := do
  match ← translate F s root va with
  | none => some (.error .blockedByExistingMapping, s)
  | some paddr =>
    lock F s root va (va + size.bytes)
    match ← s.cursorUnmap F root va (va + size.bytes) with
    | (.error e, s) => some (.error e, s)
    | (.ok _, s) => some (.ok paddr, s)

end AddrSpace

end Koros.Mmu
