import Koros.Frame.Alloc
import Koros.Lib.Bytes

/-!
# The slab heap

`kor-alloc/src/slab_heap.rs`: seven caches of power-of-two blocks whose free lists are threaded through the free memory,
refilled from the frame allocator, and extents of frames for what is larger than a page. `none` is a panic; the null pointer
is address 0. Physical memory is seen at a constant offset, as on every architecture.
-/
set_option autoImplicit false

namespace Koros.Heap

open Koros.Lib Koros.Frame

def NUM_SLABS : Nat := 7

def MIN_HEAP_BYTES : Nat := NUM_SLABS * pageSize

/-- Pages added to one size class when it runs dry. -/
def GROW_PAGES : Nat := 8

structure Layout where
  size : Nat
  align : Nat
deriving DecidableEq, Repr

/-- What `Layout` guarantees, for a layout that is not of size zero. -/
structure Layout.Valid (l : Layout) : Prop where
  align : ∃ k, l.align = 2 ^ k
  size : 0 < l.size
  fits : l.size + (l.align - 1) < 2 ^ 63

inductive SlabClass where
  | bytes64
  | bytes128
  | bytes256
  | bytes512
  | bytes1024
  | bytes2048
  | bytes4096
  | large
deriving DecidableEq, Repr

/-! ## Free lists -/

namespace FreeList

/-- The first word of a free block names the next one. -/
def push (mem : Bytes) (head addr : Nat) : Bytes × Nat := (putLe mem addr 8 head, addr)

def pop (mem : Bytes) (head : Nat) : Option (Nat × Nat) := if head = 0 then none else some (head, leNat mem head 8)

/-- Push the blocks of `start` below index `n`, the last one first. -/
def pushBlocks (start blockSize : Nat) : (n : Nat) → (mem : Bytes) → (head : Nat) → Bytes × Nat
  | 0, mem, head => (mem, head)
  | n + 1, mem, head =>
    let (mem, head) := push mem head (start + n * blockSize)
    pushBlocks start blockSize n mem head

def new (mem : Bytes) (start blockSize count : Nat) : Bytes × Nat := pushBlocks start blockSize count mem 0

/-- Move the blocks of `incoming`, at most `fuel` of them, onto `head`. -/
def drain : (fuel : Nat) → (mem : Bytes) → (incoming head : Nat) → Bytes × Nat
  | 0, mem, _, head => (mem, head)
  | fuel + 1, mem, incoming, head =>
    match pop mem incoming with
    | none => (mem, head)
    | some (addr, incoming) =>
      let (mem, head) := push mem head addr
      drain fuel mem incoming head

end FreeList

/-! ## Slabs -/

structure Slab where
  blockSize : Nat
  head : Nat
deriving DecidableEq, Repr

namespace Slab

def new (mem : Bytes) (start bytes blockSize : Nat) : Bytes × Slab :=
  let (mem, head) := FreeList.new mem start blockSize (bytes / blockSize)
  (mem, ⟨blockSize, head⟩)

/-- The incoming list has one block for each unit of fuel. -/
def grow (s : Slab) (mem : Bytes) (start bytes : Nat) : Bytes × Slab :=
  let count := bytes / s.blockSize
  let (mem, incoming) := FreeList.new mem start s.blockSize count
  let (mem, head) := FreeList.drain count mem incoming s.head
  (mem, { s with head := head })

def allocate (s : Slab) (mem : Bytes) : Option (Nat × Slab) :=
  (FreeList.pop mem s.head).map fun (addr, head) => (addr, { s with head := head })

def deallocate (s : Slab) (mem : Bytes) (ptr : Nat) : Bytes × Slab :=
  let (mem, head) := FreeList.push mem s.head ptr
  (mem, { s with head := head })

end Slab

/-- The slab of each class; `large` has none. -/
structure SlabHeap where
  slab : SlabClass → Option Slab

namespace SlabHeap

/-- The classes with a slab, by block size. -/
def classes : List SlabClass := [.bytes64, .bytes128, .bytes256, .bytes512, .bytes1024, .bytes2048, .bytes4096]

def blockSize : SlabClass → Nat
  | .bytes64 => 64
  | .bytes128 => 128
  | .bytes256 => 256
  | .bytes512 => 512
  | .bytes1024 => 1024
  | .bytes2048 => 2048
  | .bytes4096 => 4096
  | .large => 0

def setSlab (h : SlabHeap) (c : SlabClass) (s : Slab) : SlabHeap := ⟨Function.update h.slab c (some s)⟩

/-- One slab after the other, each in a slot of its own. -/
def newSlabs (slot : Nat) : List SlabClass → (start : Nat) → Bytes → SlabHeap → Bytes × SlabHeap
  | [], _, mem, h => (mem, h)
  | c :: cs, start, mem, h =>
    let (mem, s) := Slab.new mem start slot (blockSize c)
    newSlabs slot cs (start + slot) mem (h.setSlab c s)

def new (mem : Bytes) (start size : Nat) : Option (Bytes × SlabHeap) :=
  if start % pageSize = 0 ∧ MIN_HEAP_BYTES ≤ size ∧ size % MIN_HEAP_BYTES = 0 then
    some (newSlabs (size / NUM_SLABS) classes start mem ⟨fun _ => none⟩)
  else none

def classFor (l : Layout) : SlabClass :=
  if l.size > pageSize ∨ l.align > pageSize then .large
  else if l.size ≤ 64 ∧ l.align ≤ 64 then .bytes64
  else if l.size ≤ 128 ∧ l.align ≤ 128 then .bytes128
  else if l.size ≤ 256 ∧ l.align ≤ 256 then .bytes256
  else if l.size ≤ 512 ∧ l.align ≤ 512 then .bytes512
  else if l.size ≤ 1024 ∧ l.align ≤ 1024 then .bytes1024
  else if l.size ≤ 2048 ∧ l.align ≤ 2048 then .bytes2048
  else .bytes4096

end SlabHeap

/-- `usize::checked_next_multiple_of`. -/
def checkedNextMultipleOf (n m : Nat) : Option Nat :=
  let r := (n + m - 1) / m * m
  if r < 2 ^ 64 then some r else none

/-- The frames that cover both the size and the alignment. -/
def largeExtentFrames (l : Layout) : Option Nat :=
  (checkedNextMultipleOf (max l.size 1) pageSize).map fun bytes => max (bytes / pageSize) (max l.align pageSize / pageSize)

/-! ## The locked heap -/

/-- `LockedSlabHeap` with the memory, the frame allocator and the growth flag it works on. -/
structure LockedSlabHeap where
  mem : Bytes
  heap : Option SlabHeap
  frames : FrameAllocator
  growth : Bool

section

variable (offset : Nat)

def toKa (phys : Nat) : Nat := (phys + offset) % 2 ^ 64

def fromKa (va : Nat) : Nat := (va + 2 ^ 64 - offset) % 2 ^ 64

namespace LockedSlabHeap

def init (h : LockedSlabHeap) (start size : Nat) : Option LockedSlabHeap :=
  (SlabHeap.new h.mem start size).map fun (mem, heap) => { h with mem := mem, heap := some heap }

def enableFrameGrowth (h : LockedSlabHeap) : LockedSlabHeap := { h with growth := true }

def allocLarge (h : LockedSlabHeap) (l : Layout) : Option (Nat × LockedSlabHeap) :=
  if h.growth then
    match largeExtentFrames l with
    | none => some (0, h)
    | some n => do
      let (phys, frames) ← h.frames.allocFrames n
      let h := { h with frames := frames }
      match phys with
      | none => some (0, h)
      | some phys => some (toKa offset phys, h)
  else some (0, h)

/-- Refill one class from frames: whether it was refilled. -/
def growFromFrames (h : LockedSlabHeap) (c : SlabClass) : Option (Bool × LockedSlabHeap) :=
  if ¬h.growth then some (false, h)
  else if c = .large then some (false, h)
  else do
    let (phys, frames) ← h.frames.allocFrames GROW_PAGES
    let h := { h with frames := frames }
    match phys with
    | none => some (false, h)
    | some phys =>
      match h.heap with
      | none => some (false, h)
      | some heap =>
        match heap.slab c with
        | none => some (true, h)
        | some s =>
          let (mem, s) := s.grow h.mem (toKa offset phys) (GROW_PAGES * pageSize)
          some (true, { h with mem := mem, heap := some (heap.setSlab c s) })

/-- The loop of `alloc`. Every round but the last takes frames, so it ends within `fuel` rounds. -/
def allocLoop (c : SlabClass) : (fuel : Nat) → LockedSlabHeap → Option (Nat × LockedSlabHeap)
  | 0, h => some (0, h)
  | fuel + 1, h =>
    match h.heap with
    | none => some (0, h)
    | some heap =>
      match (heap.slab c).bind fun s => (s.allocate h.mem).map fun (p, s) => (p, heap.setSlab c s) with
      | some (p, heap) => some (p, { h with heap := some heap })
      | none => do
        let (grown, h) ← h.growFromFrames offset c
        if grown then allocLoop c fuel h else some (0, h)

def alloc (h : LockedSlabHeap) (l : Layout) : Option (Nat × LockedSlabHeap) :=
  if SlabHeap.classFor l = .large then h.allocLarge offset l
  else allocLoop offset (SlabHeap.classFor l) (h.frames.availableFrames + 1) h

def dealloc (h : LockedSlabHeap) (ptr : Nat) (l : Layout) : Option LockedSlabHeap :=
  if ptr = 0 then some h
  else if SlabHeap.classFor l = .large then do
    let n ← largeExtentFrames l
    let frames ← h.frames.freeFramesAt (fromKa offset ptr) n
    some { h with frames := frames }
  else
    match h.heap with
    | none => some h
    | some heap =>
      match heap.slab (SlabHeap.classFor l) with
      | none => some h
      | some s =>
        let (mem, s) := s.deallocate h.mem ptr
        some { h with mem := mem, heap := some (heap.setSlab (SlabHeap.classFor l) s) }

end LockedSlabHeap

end

end Koros.Heap
