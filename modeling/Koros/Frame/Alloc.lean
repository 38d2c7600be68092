import Koros.Lib.Checked
import Koros.Lib.Words

/-!
# The physical frame allocator

`FrameAllocator` of `kor/src/frame.rs`: registered regions of physical memory share one bitmap, in which region `r`
owns the bits `[r.bitmapBase, r.bitmapBase + r.frames)`; a set bit is an allocated frame.

A function that can panic (a failed `assert!`, an `expect`, an index out of range, an underflowing counter) returns
`none` there. Addresses and counts are `usize` values of a 64-bit target.
-/
set_option autoImplicit false

namespace Koros.Frame

open Koros.Lib

/-- Size of one physical page frame. -/
def pageSize : Nat := 4096

/-- Maximum number of independently registered physical regions. -/
def maxRegions : Nat := 64

/-- Frames the bitmap can track. -/
def maxTrackedFrames : Nat := 2 ^ 20

/-- Words of the bitmap. -/
def bitmapWords : Nat := maxTrackedFrames / 64

/-- `x & !m` on `usize`. -/
def andNot (x m : Nat) : Nat := x &&& (usizeMax ^^^ m)

/-- `usize::checked_next_power_of_two`. -/
def checkedNextPowerOfTwo (n : Nat) : Option Nat := ((List.range 64).find? fun k => n ≤ 2 ^ k).map (2 ^ ·)

structure Region where
  startPpn : Nat
  frames : Nat
  bitmapBase : Nat
  nextHint : Nat
deriving DecidableEq, Repr

/-- `regions` is the used part of the source's array, `regions[..region_count]`. -/
structure FrameAllocator where
  regions : List Region
  trackedFrames : Nat
  freeFrames : Nat
  allocated : Nat → BitVec 64

def alignPpn (ppn frames : Nat) : Nat := andNot (ppn + frames - 1) (frames - 1)

namespace FrameAllocator

def new : FrameAllocator := ⟨[], 0, 0, fun _ => 0⟩

/-- Register the free physical memory `[start, end)`; the bounds are rounded inward. -/
def addRegion (a : FrameAllocator) (start stop : Nat) : Option FrameAllocator :=
  let start := andNot (min (start + (pageSize - 1)) usizeMax) (pageSize - 1)
  let stop := andNot stop (pageSize - 1)
  if start ≥ stop then some a
  else
    let startPpn := start / pageSize
    let frames := (stop - start) / pageSize
    if ¬ a.regions.length < maxRegions then none
    else if ¬ a.trackedFrames + frames ≤ maxTrackedFrames then none
    else if ¬ a.regions.all (fun r => startPpn + frames ≤ r.startPpn || startPpn ≥ r.startPpn + r.frames) then none
    else some
      { a with
        regions := a.regions ++ [⟨startPpn, frames, a.trackedFrames, 0⟩]
        trackedFrames := a.trackedFrames + frames
        freeFrames := a.freeFrames + frames }

/-- Whether frame `offset` of a region is allocated. -/
def bit (a : FrameAllocator) (regionIndex offset : Nat) : Option Bool := do
  let region ← a.regions[regionIndex]?
  let bit := region.bitmapBase + offset
  if bit / 64 < bitmapWords then some (a.allocated (bit / 64) &&& (1#64 <<< (bit % 64)) != 0#64) else none

/-- The first allocated frame among the `n` frames from `index` on. -/
def firstUsed (a : FrameAllocator) (regionIndex : Nat) : (n index : Nat) → Option (Option Nat)
  | 0, _ => some none
  | n + 1, index => do
    if ← a.bit regionIndex index then some (some index) else a.firstUsed regionIndex n (index + 1)

/-- The search loop of `find_free_run`; `none` for running out of `fuel` never happens (`findLoop_spec`). -/
def findLoop (a : FrameAllocator) (regionIndex : Nat) (region : Region) (stop frames : Nat) :
    (fuel offset : Nat) → Option (Option Nat)
  | 0, _ => none
  | fuel + 1, offset => do
    -- `checked_add(..)?` leaves the function with `None`
    if ¬ offset + frames ≤ usizeMax then some none
    else if ¬ offset + frames ≤ stop then some none
    else
      match ← a.firstUsed regionIndex frames offset with
      | none => some (some offset)
      | some used =>
        let next := alignPpn (region.startPpn + used + 1) frames
        if next < region.startPpn then some none
        else a.findLoop regionIndex region stop frames fuel (next - region.startPpn)

/-- An aligned run of `frames` free frames inside `[start, stop)` of a region. -/
def findFreeRun (a : FrameAllocator) (regionIndex start stop frames : Nat) : Option (Option Nat) := do
  let region ← a.regions[regionIndex]?
  let first := alignPpn (region.startPpn + start) frames
  if first < region.startPpn then some none
  else a.findLoop regionIndex region stop frames (stop + 1) (first - region.startPpn)

/-- Write the `n` bits from `bit` on. -/
def markBits (value : Bool) : (n bit : Nat) → (Nat → BitVec 64) → Option (Nat → BitVec 64)
  | 0, _, words => some words
  | n + 1, bit, words =>
    if bit / 64 < bitmapWords then markBits value n (bit + 1) (writeBitAt value words bit) else none

def markRun (a : FrameAllocator) (regionIndex offset frames : Nat) (value : Bool) : Option FrameAllocator := do
  let region ← a.regions[regionIndex]?
  let words ← markBits value frames (region.bitmapBase + offset) a.allocated
  some { a with allocated := words }

def setHint (a : FrameAllocator) (regionIndex hint : Nat) : FrameAllocator :=
  { a with regions := a.regions.modify regionIndex fun r => { r with nextHint := hint } }

/-- The two search windows of one region: from the hint on, then before it. -/
def searchRegion (a : FrameAllocator) (regionIndex frames : Nat) : Option (Option Nat) := do
  let region ← a.regions[regionIndex]?
  if frames > region.frames then some none
  else
    match ← a.findFreeRun regionIndex region.nextHint region.frames frames with
    | some offset => some (some offset)
    | none => a.findFreeRun regionIndex 0 region.nextHint frames

/-- Reserve the run found at `offset` of a region. -/
def take (a : FrameAllocator) (regionIndex offset frames : Nat) : Option (Option Nat × FrameAllocator) := do
  let region ← a.regions[regionIndex]?
  let a ← a.markRun regionIndex offset frames true
  let a := a.setHint regionIndex (offset + frames)
  if a.freeFrames < frames then none
  else some (some ((region.startPpn + offset) * pageSize), { a with freeFrames := a.freeFrames - frames })

/-- The loop over the regions, `n` of them from `regionIndex` on. -/
def allocLoop (a : FrameAllocator) (frames : Nat) : (n regionIndex : Nat) → Option (Option Nat × FrameAllocator)
  | 0, _ => some (none, a)
  | n + 1, regionIndex => do
    match ← a.searchRegion regionIndex frames with
    | some offset => a.take regionIndex offset frames
    | none => a.allocLoop frames n (regionIndex + 1)

/-- Allocate `count` contiguous frames: the physical address, or `none` when no run fits. -/
def allocFrames (a : FrameAllocator) (count : Nat) : Option (Option Nat × FrameAllocator) :=
  if count = 0 then some (none, a)
  else
    match checkedNextPowerOfTwo count with
    | none => some (none, a)
    | some frames => a.allocLoop frames a.regions.length 0

/-- The region and the offset in it of an extent. -/
def locate (a : FrameAllocator) (ppn frames : Nat) : Option (Nat × Nat) :=
  (a.regions.zipIdx).findSome? fun (region, index) =>
    if ppn < region.startPpn then none
    else
      let offset := ppn - region.startPpn
      if offset + frames ≤ usizeMax ∧ offset + frames ≤ region.frames then some (index, offset) else none

/-- Whether the `n` frames from `index` on are all allocated. -/
def allUsed (a : FrameAllocator) (regionIndex : Nat) : (n index : Nat) → Option Bool
  | 0, _ => some true
  | n + 1, index => do
    if ← a.bit regionIndex index then a.allUsed regionIndex n (index + 1) else some false

/-- Free `count` contiguous frames previously returned by `allocFrames`. -/
def freeFramesAt (a : FrameAllocator) (phys count : Nat) : Option FrameAllocator := do
  if count = 0 then none
  else if phys % pageSize ≠ 0 then none
  else
    let frames ← checkedNextPowerOfTwo count
    let ppn := phys / pageSize
    let (regionIndex, offset) ← a.locate ppn frames
    if ← a.allUsed regionIndex frames offset then
      let a ← a.markRun regionIndex offset frames false
      let region ← a.regions[regionIndex]?
      let a := a.setHint regionIndex (min region.nextHint offset)
      some { a with freeFrames := a.freeFrames + frames }
    else none

/-- Number of free frames tracked by the allocator. -/
def availableFrames (a : FrameAllocator) : Nat := a.freeFrames

end FrameAllocator

/-- Allocate one frame. -/
def allocFrame (a : FrameAllocator) : Option (Option Nat × FrameAllocator) := a.allocFrames 1

end Koros.Frame
