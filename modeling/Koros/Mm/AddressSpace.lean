import Koros.Mmu.PageTable
import Std.Data.TreeMap

/-!
# User address spaces

`AddressSpace` of `korix/src/mm/mod.rs`: a page-table root with the map of the user pages that it owns. Its operations
change the page table through the engine and the map beside it, page by page, with loops that undo what they did when a
page cannot be mapped.

A function that can panic returns `none` there. `World` is the machine with all its live address spaces; `World.step` is
one call on one of them. `x & (PAGE_SIZE - 1)` is written `x % pageSize`.
-/
set_option autoImplicit false

namespace Koros.Mm

open Koros.Frame Koros.Mmu

inductive Arch where
  | riscv64
  | x86_64
  | aarch64
deriving DecidableEq, Repr

namespace Arch

def format : Arch → PteFormat
  | riscv64 => Mmu.riscv64
  | x86_64 => Mmu.x86_64
  | aarch64 => Mmu.aarch64

/-- `USER_ADDRESS_LIMIT`. -/
def userAddressLimit : Arch → Nat
  | riscv64 => 1 <<< 38
  | x86_64 => 1 <<< 47
  | aarch64 => 1 <<< 48

end Arch

/-- Physical memory and the root that the CPU translates through. -/
structure Machine where
  mem : Memory
  active : Nat

structure VmPage where
  phys : Nat
  flags : MappingFlags
deriving DecidableEq, Repr

structure AddressSpace where
  root : Nat
  owned : Bool
  pages : Std.TreeMap Nat VmPage

/-- `(start..stop).step_by(PAGE_SIZE)`. -/
def stepBy (start stop : Nat) : List Nat :=
  (List.range ((stop - start + (pageSize - 1)) / pageSize)).map fun i => start + i * pageSize

/-! ## Page-table roots -/

/-- Copy one page of memory. -/
def copyPage (s : Memory) (src dst : Nat) : Memory := { s with mem := Function.update s.mem dst (s.mem src) }

/-- A root that shares the upper half of the active one. -/
def newUser (m : Machine) : Option (Except MapError Nat × Machine) := do
  match ← allocFrame m.mem.frames with
  | (none, a) => some (.error .outOfMemory, { m with mem := { m.mem with frames := a } })
  | (some cloned, a) =>
    let s := { m.mem with frames := a }.zeroPage cloned
    let entries := fun i => if 256 ≤ i ∧ i < ptEntries then s.mem m.active i else s.mem cloned i
    some (.ok cloned, { m with mem := { s with mem := Function.update s.mem cloned entries } })

/-- Free a table, the tables under it, and the pages of level-0 tables, as far as the first 256 entries go. -/
def destroyTable (F : PteFormat) : (level table : Nat) → Memory → Option Memory
  | level, table, s => do
    let recur := match level with
      | 0 => fun _ s => some s
      | level' + 1 => destroyTable F level'
    let s ← (List.range 256).foldlM (fun s i => do
      let entry := s.mem table i
      if !F.entryPresent entry then some s
      else if F.entryIsLeaf entry level then
        if level = 0 then
          let a ← s.frames.freeFramesAt (F.entryPhys entry level) 1
          some { s with frames := a }
        else some s
      else if level > 0 then recur (F.entryPhys entry level) s
      else some s) s
    let a ← s.frames.freeFramesAt table 1
    some { s with frames := a }

/-! ## Loops over pages -/

/-- Free the frames one by one. -/
def freeAll : List Nat → Memory → Option Memory
  | [], s => some s
  | phys :: rest, s => do
    let a ← s.frames.freeFramesAt phys 1
    freeAll rest { s with frames := a }

/-- Allocate `count` frames behind those of `fresh`, or give all of them back. -/
def allocFresh : (count : Nat) → (fresh : List Nat) → Memory → Option (Option (List Nat) × Memory)
  | 0, fresh, s => some (some fresh, s)
  | count + 1, fresh, s => do
    match ← allocFrame s.frames with
    | (some phys, a) => allocFresh count (fresh ++ [phys]) { s with frames := a }
    | (none, a) =>
      let s ← freeAll fresh { s with frames := a }
      some (none, s)

section Loops

variable (F : PteFormat) (root : Nat)

def unmapAll : List Nat → Memory → Option (Except MapError Unit × Memory)
  | [], s => some (.ok (), s)
  | vaddr :: rest, s => do
    match ← AddrSpace.unmap F s root vaddr .page4K with
    | (.error e, s) => some (.error e, s)
    | (.ok _, s) => unmapAll rest s

/-- Undo a mapping loop: unmap what it mapped, map what was there before. -/
def rollback (mapped : List Nat) (old : List (Nat × VmPage)) (s : Memory) : Option Memory := do
  let s ← mapped.foldlM (fun s vaddr => (AddrSpace.unmap F s root vaddr .page4K).map Prod.snd) s
  old.foldlM (fun s (vaddr, page) => (AddrSpace.map F s root vaddr page.phys page.flags .page4K).map Prod.snd) s

/-- Map each address to its frame, zeroing the frame if asked; `mapped` are the addresses done, `old` is what a failure
restores. -/
def mapAll (flags : MappingFlags) (zero : Bool) (old : List (Nat × VmPage)) (mapped : List Nat) :
    List (Nat × Nat) → Memory → Option (Except MapError Unit × Memory)
  | [], s => some (.ok (), s)
  | (vaddr, phys) :: rest, s => do
    match ← AddrSpace.map F s root vaddr phys flags .page4K with
    | (.error e, s) =>
      let s ← rollback F root mapped old s
      some (.error e, s)
    | (.ok (), s) => mapAll flags zero old (mapped ++ [vaddr]) rest (if zero then s.zeroPage phys else s)

/-- The part of `map_zeroed` that runs with the space active. -/
def mapFresh (vaddr : Nat) (flags : MappingFlags) (s : Memory) : Option (Except MapError Nat × Memory) := do
  match ← allocFrame s.frames with
  | (none, a) => some (.error .outOfMemory, { s with frames := a })
  | (some paddr, a) =>
    match ← AddrSpace.map F { s with frames := a } root vaddr paddr flags .page4K with
    | (.ok (), s) => some (.ok paddr, s.zeroPage paddr)
    | (.error e, s) =>
      let a ← s.frames.freeFramesAt paddr 1
      some (.error e, { s with frames := a })

/-- The part of `replace_zeroed` that runs with the space active; `old` are the pages of the range that are mapped. -/
def replacePages (flags : MappingFlags) (old : List (Nat × VmPage)) (fresh : List (Nat × Nat)) (s : Memory) :
    Option (Except MapError Unit × Memory) := do
  match ← unmapAll F root (old.map Prod.fst) s with
  | (.error e, s) => some (.error e, s)
  | (.ok (), s) =>
    match ← mapAll F root flags true old [] fresh s with
    | (.error e, s) => some (.error e, s)
    | (.ok (), s) =>
      let s ← freeAll (old.map fun (_, page) => page.phys) s
      some (.ok (), s)

/-- The part of `protect_range` that runs with the space active. -/
def protectPages (flags : MappingFlags) (old : List (Nat × VmPage)) (s : Memory) :
    Option (Except MapError Unit × Memory) := do
  match ← unmapAll F root (old.map Prod.fst) s with
  | (.error e, s) => some (.error e, s)
  | (.ok (), s) => mapAll F root flags false old [] (old.map fun (vaddr, page) => (vaddr, page.phys)) s

end Loops

/-! ## The operations -/

namespace AddressSpace

/-- Create a root containing kernel mappings but no user mappings. -/
def empty (m : Machine) : Option (Except MapError AddressSpace × Machine) := do
  match ← newUser m with
  | (.error e, m) => some (.error e, m)
  | (.ok root, m) => some (.ok ⟨root, true, ∅⟩, m)

/-- Run `operation` with this root active. -/
def withActive {α : Type} (space : AddressSpace) (m : Machine)
    (operation : (active : Nat) → Memory → Option (α × Memory)) : Option (α × Machine) := do
  let previous := m.active
  let m := if previous ≠ space.root then { m with active := space.root } else m
  let (result, s) ← operation m.active m.mem
  let m := { m with mem := s }
  some (result, if previous ≠ space.root then { m with active := previous } else m)

/-- Dropping an owned space destroys its tables; the active one must not be dropped. -/
def drop (arch : Arch) (space : AddressSpace) (m : Machine) : Option Machine :=
  if space.owned then
    if m.active = space.root then none
    else do
      let s ← destroyTable arch.format (arch.format.levels - 1) space.root m.mem
      some { m with mem := s }
  else some m

section Operations

variable (arch : Arch)

/-- Map a fresh zeroed page. -/
def mapZeroed (space : AddressSpace) (m : Machine) (vaddr : Nat) (flags : MappingFlags) :
    Option (Except MapError Nat × AddressSpace × Machine) := do
  if vaddr % pageSize ≠ 0 ∨ vaddr ≥ arch.userAddressLimit ∨ !flags.u then
    some (.error .blockedByExistingMapping, space, m)
  else if space.pages.contains vaddr then some (.error .blockedByExistingMapping, space, m)
  else
    let (r, m) ← space.withActive m fun active => mapFresh arch.format active vaddr flags
    match r with
    | .error e => some (.error e, space, m)
    | .ok phys => some (.ok phys, { space with pages := space.pages.insert vaddr ⟨phys, flags⟩ }, m)

/-- Replace a page-aligned range by fresh zeroed pages. -/
def replaceZeroed (space : AddressSpace) (m : Machine) (start length : Nat) (flags : MappingFlags) :
    Option (Except MapError Unit × AddressSpace × Machine) := do
  if start % pageSize ≠ 0 ∨ length = 0 ∨ length % pageSize ≠ 0 then
    some (.error .blockedByExistingMapping, space, m)
  else
    match checkedAdd start length with
    | none => some (.error .blockedByExistingMapping, space, m)
    | some stop =>
      if stop > arch.userAddressLimit ∨ !flags.u then some (.error .blockedByExistingMapping, space, m)
      else
        match ← allocFresh (length / pageSize) [] m.mem with
        | (none, s) => some (.error .outOfMemory, space, { m with mem := s })
        | (some fresh, s) =>
          let old := (stepBy start stop).filterMap fun vaddr => (space.pages[vaddr]?).map fun page => (vaddr, page)
          let (r, m) ← space.withActive { m with mem := s } fun active =>
            replacePages arch.format active flags old ((stepBy start stop).zip fresh)
          match r with
          | .error e => some (.error e, space, m)
          | .ok () =>
            let pages := ((stepBy start stop).zip fresh).foldl
              (fun pages (vaddr, phys) => pages.insert vaddr ⟨phys, flags⟩) space.pages
            some (.ok (), { space with pages }, m)

/-- Change the permissions of a range that is mapped throughout. -/
def protectRange (space : AddressSpace) (m : Machine) (start length : Nat) (flags : MappingFlags) :
    Option (Except MapError Unit × AddressSpace × Machine) := do
  if start % pageSize ≠ 0 ∨ length = 0 ∨ length % pageSize ≠ 0 ∨ !flags.u then
    some (.error .blockedByExistingMapping, space, m)
  else
    match checkedAdd start length with
    | none => some (.error .blockedByExistingMapping, space, m)
    | some stop =>
      if stop > arch.userAddressLimit then some (.error .blockedByExistingMapping, space, m)
      else
        match (stepBy start stop).mapM fun vaddr => (space.pages[vaddr]?).map fun page => (vaddr, page) with
        | none => some (.error .blockedByExistingMapping, space, m)
        | some old =>
          let (r, m) ← space.withActive m fun active => protectPages arch.format active flags old
          match r with
          | .error e => some (.error e, space, m)
          | .ok () =>
            let pages := old.foldl (fun pages (vaddr, page) => pages.insert vaddr { page with flags }) space.pages
            some (.ok (), { space with pages }, m)

/-- Unmap the pages of a range and free their frames. -/
def unmapRange (space : AddressSpace) (m : Machine) (start length : Nat) :
    Option (Except MapError Unit × AddressSpace × Machine) := do
  if start % pageSize ≠ 0 then some (.error .blockedByExistingMapping, space, m)
  else
    match checkedAdd start length with
    | none => some (.error .blockedByExistingMapping, space, m)
    | some stop =>
      let old := (stepBy start stop).filterMap fun vaddr => (space.pages[vaddr]?).map fun page => (vaddr, page)
      let (r, m) ← space.withActive m fun active => unmapAll arch.format active (old.map Prod.fst)
      match r with
      | .error e => some (.error e, space, m)
      | .ok () =>
        let pages := old.foldl (fun pages (vaddr, _) => pages.erase vaddr) space.pages
        let s ← freeAll (old.map fun (_, page) => page.phys) m.mem
        some (.ok (), { space with pages }, { m with mem := s })

/-- The loop of `fork`: map a page in the child and copy the parent's contents. A failure drops the child. -/
def forkPages : List (Nat × VmPage) → (child : AddressSpace) → Machine → Option (Except MapError AddressSpace × Machine)
  | [], child, m => some (.ok child, m)
  | (vaddr, page) :: rest, child, m => do
    match ← child.mapZeroed arch m vaddr page.flags with
    | (.error e, child, m) =>
      let m ← child.drop arch m
      some (.error e, m)
    | (.ok childPhys, child, m) => forkPages rest child { m with mem := copyPage m.mem page.phys childPhys }

/-- Deep-copy an address space. -/
def fork (space : AddressSpace) (m : Machine) : Option (Except MapError AddressSpace × Machine) := do
  match ← empty m with
  | (.error e, m) => some (.error e, m)
  | (.ok child, m) => forkPages arch space.pages.toList child m

end Operations

end AddressSpace

/-! ## All address spaces of a machine -/

structure World where
  machine : Machine
  spaces : List AddressSpace

/-- A call on the address space with the given index. `store` is a program that writes to one of its pages. -/
inductive Op where
  | empty
  | activate (i : Nat)
  | store (i vaddr : Nat) (words : Nat → Nat)
  | mapZeroed (i vaddr : Nat) (flags : MappingFlags)
  | replaceZeroed (i start length : Nat) (flags : MappingFlags)
  | protectRange (i start length : Nat) (flags : MappingFlags)
  | unmapRange (i start length : Nat)
  | fork (i : Nat)

namespace World

/-- A new address space joins the others. -/
def add (w : World) : Except MapError AddressSpace × Machine → Except MapError Unit × World
  | (.error e, m) => (.error e, { w with machine := m })
  | (.ok space, m) => (.ok (), ⟨m, w.spaces ++ [space]⟩)

/-- Address space `i` was changed. -/
def change {α : Type} (w : World) (i : Nat) :
    Except MapError α × AddressSpace × Machine → Except MapError Unit × World
  | (r, space, m) => (r.map fun _ => (), ⟨m, w.spaces.set i space⟩)

def step (arch : Arch) (w : World) : Op → Option (Except MapError Unit × World)
  | .empty => (AddressSpace.empty w.machine).map w.add
  | .activate i => do
    let space ← w.spaces[i]?
    some (.ok (), { w with machine := { w.machine with active := space.root } })
  | .store i vaddr words => do
    let space ← w.spaces[i]?
    let page ← space.pages[vaddr]?
    let s := w.machine.mem
    some (.ok (), { w with machine := { w.machine with mem := { s with mem := Function.update s.mem page.phys words } } })
  | .mapZeroed i vaddr flags => do
    let space ← w.spaces[i]?
    (space.mapZeroed arch w.machine vaddr flags).map (w.change i)
  | .replaceZeroed i start length flags => do
    let space ← w.spaces[i]?
    (space.replaceZeroed arch w.machine start length flags).map (w.change i)
  | .protectRange i start length flags => do
    let space ← w.spaces[i]?
    (space.protectRange arch w.machine start length flags).map (w.change i)
  | .unmapRange i start length => do
    let space ← w.spaces[i]?
    (space.unmapRange arch w.machine start length).map (w.change i)
  | .fork i => do
    let space ← w.spaces[i]?
    (space.fork arch w.machine).map w.add

def run (arch : Arch) (w : World) : List Op → Option (List (Except MapError Unit) × World)
  | [] => some ([], w)
  | op :: ops => do
    let (r, w) ← w.step arch op
    let (rs, w) ← w.run arch ops
    some (r :: rs, w)

end World

end Koros.Mm
