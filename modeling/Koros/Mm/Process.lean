import Koros.Mm.Coherent

/-!
# Process calls that change memory

The memory side of a process, `ProcessState` of `korix/src/sched/mod.rs`, and the calls of `korix/src/syscall/mod.rs` that
change its address space: `mmap`, `munmap`, `mprotect`, `brk`, `clone`, `execve` and `exit`, with the stores of user code
between them. A call returns the number that the system call returns.

Every call is made by a process on a CPU that translates through the root of its address space. `System.past` remembers
the frames that images replaced by `execve` had recorded, until the frame allocator hands them out again.

What the calls take from elsewhere is given with them: the pages that the loader asks for, the outcome of reading a mapped
file, and whether the trap frame could be captured or restored.
-/
set_option autoImplicit false

namespace Koros.Mm

open Koros.Frame Koros.Mmu

/-! ## Layout and arguments -/

namespace Arch

def mmapBase : Arch → Nat
  | riscv64 => 0x20_0000_0000
  | x86_64 => 0x4_0000_0000
  | aarch64 => 0x80_0000_0000

def brkBase : Arch → Nat
  | riscv64 => 0x1_0001_0000
  | x86_64 => 0x2_0000_0000
  | aarch64 => 0x80_0100_0000

end Arch

/-- `value.checked_add(4095).map(|value| value & !4095)`. -/
def roundUp (value : Nat) : Option Nat := (checkedAdd value (pageSize - 1)).map fun value => value / pageSize * pageSize

/-- The flags of a user page with the given `PROT` bits. -/
def protFlags (prot : Nat) : MappingFlags := ⟨prot &&& 1 ≠ 0, prot &&& 2 ≠ 0, prot &&& 4 ≠ 0, true⟩

/-- The error number of a failed mapping. -/
def errno : MapError → Int
  | .outOfMemory => -12
  | _ => -22

/-! ## Bytes of physical memory -/

/-- Byte `k` of a word replaced. -/
def putByte (word k byte : Nat) : Nat := word - word / 256 ^ k % 256 * 256 ^ k + byte * 256 ^ k

/-- Store a byte at a physical address. -/
def setByte (s : Memory) (paddr byte : Nat) : Memory :=
  let page := paddr / pageSize * pageSize
  let index := paddr % pageSize / 8
  s.setEntry page index (putByte (s.mem page index) (paddr % 8) byte)

/-- `*(phys_to_virt(paddr) as *mut u32) = value`. -/
def writeU32 (s : Memory) (paddr value : Nat) : Memory :=
  (List.range 4).foldl (fun s k => setByte s (paddr + k) (value / 256 ^ k % 256)) s

/-! ## Helpers of the calls -/

namespace AddressSpace

variable (arch : Arch)

/-- Every page of the aligned range is unmapped. -/
def rangeIsFree (space : AddressSpace) (start length : Nat) : Bool :=
  if start % pageSize ≠ 0 ∨ length = 0 ∨ length % pageSize ≠ 0 then false
  else
    match checkedAdd start length with
    | none => false
    | some stop => stop ≤ arch.userAddressLimit && (stepBy start stop).all fun address => !space.pages.contains address

/-- The first free range from `start` on; each turn of the loop moves on by one page. -/
def findFree (space : AddressSpace) (length : Nat) : (fuel start : Nat) → Option Nat
  | 0, _ => none
  | fuel + 1, start =>
    if space.rangeIsFree arch start length then some start
    else (checkedAdd start pageSize).bind (findFree space length fuel)

/-- The physical address that the map has for a user address. -/
def translate (space : AddressSpace) (vaddr : Nat) : Option Nat :=
  (space.pages[pageOf vaddr]?).map fun page => page.phys + vaddr % pageSize

/-- Overwrite pages of the map. -/
def populate (space : AddressSpace) (m : Machine) (contents : List (Nat × (Nat → Nat))) : Machine :=
  contents.foldl (fun m (vaddr, words) =>
    match space.pages[vaddr]? with
    | none => m
    | some page => { m with mem := { m.mem with mem := Function.update m.mem.mem page.phys words } }) m

/-- The loop of `mmap`: map `n` pages from `start + mapped` on, or take back what was mapped. -/
def mapPages (start : Nat) (flags : MappingFlags) :
    (n mapped : Nat) → AddressSpace → Machine → Option (Except MapError Unit × AddressSpace × Machine)
  | 0, _, space, m => some (.ok (), space, m)
  | n + 1, mapped, space, m => do
    match ← space.mapZeroed arch m (start + mapped) flags with
    | (.ok _, space, m) => mapPages start flags n (mapped + pageSize) space m
    | (.error e, space, m) =>
      let (_, space, m) ← space.unmapRange arch m start mapped
      some (.error e, space, m)

/-- The loop of `brk`: map the pages that are not mapped, and stop at the first error. -/
def growPages (flags : MappingFlags) :
    List Nat → AddressSpace → Machine → Option (Except MapError Unit × AddressSpace × Machine)
  | [], space, m => some (.ok (), space, m)
  | vaddr :: rest, space, m => do
    if space.pages.contains vaddr then growPages flags rest space m
    else
      match ← space.mapZeroed arch m vaddr flags with
      | (.ok _, space, m) => growPages flags rest space m
      | (.error e, space, m) => some (.error e, space, m)

end AddressSpace

/-- A page that `load_program` asks for. A page of a segment may be there already, a page of the stack may not. -/
structure Load where
  vaddr : Nat
  flags : MappingFlags
  segment : Bool
  words : Nat → Nat

/-- Load the pages of a program and fill them. -/
def loadProgram (arch : Arch) : List Load → AddressSpace → Machine → Option (Except MapError Unit × AddressSpace × Machine)
  | [], space, m => some (.ok (), space, m)
  | load :: rest, space, m => do
    if load.segment && space.pages.contains load.vaddr then
      loadProgram arch rest space (space.populate m [(load.vaddr, load.words)])
    else
      match ← space.mapZeroed arch m load.vaddr load.flags with
      | (.ok _, space, m) => loadProgram arch rest space (space.populate m [(load.vaddr, load.words)])
      | (.error e, space, m) => some (.error e, space, m)

/-! ## The calls -/

structure Process where
  space : AddressSpace
  brk : Nat
  mmapNext : Nat
  clearChildTid : Nat
  /-- Not a zombie. -/
  live : Bool

namespace Process

variable (arch : Arch)

/-- Where `sys_mmap` puts the pages, with `mmap_next` moved on. -/
def place (p : Process) (address length : Nat) (fixed : Bool) : Except Int (Nat × Process) :=
  if fixed then
    if address % pageSize ≠ 0 then .error (-22) else .ok (address, p)
  else
    match roundUp length with
    | none => .error (-12)
    | some rounded =>
      match p.space.findFree arch rounded (usizeMax / pageSize + 1) p.mmapNext with
      | none => .error (-12)
      | some start =>
        match checkedAdd start rounded with
        | none => .error (-12)
        | some next => .ok (start, { p with mmapNext := next })

/-- `replace_zeroed` for a fixed range, else the loop that maps one page after the other. -/
def mapRange (p : Process) (m : Machine) (start rounded : Nat) (flags : MappingFlags) (fixed : Bool) :
    Option (Except MapError Unit × AddressSpace × Machine) :=
  if fixed then p.space.replaceZeroed arch m start rounded flags
  else AddressSpace.mapPages arch start flags (rounded / pageSize) 0 p.space m

/-- `sys_mmap`. `file` is what comes of the backing file: an error number, or what the pages are filled with. -/
def mmap (p : Process) (m : Machine) (address length prot flags : Nat) (file : Except Int (List (Nat × (Nat → Nat)))) :
    Option (Int × Process × Machine) := do
  let length := if length = 0 then pageSize else length
  let fixed := flags &&& 0x10 ≠ 0
  match p.place arch address length fixed with
  | .error e => some (e, p, m)
  | .ok (start, p) =>
    match roundUp length with
    | none => some (-22, p, m)
    | some rounded =>
      let (r, space, m) ← p.mapRange arch m start rounded (protFlags prot) fixed
      match r with
      | .error e => some (errno e, { p with space }, m)
      | .ok () =>
        if flags &&& 0x20 ≠ 0 then some (start, { p with space }, m)
        else
          match file with
          | .ok contents => some (start, { p with space }, space.populate m contents)
          | .error e =>
            let (_, space, m) ← space.unmapRange arch m start rounded
            some (e, { p with space }, m)

def munmap (p : Process) (m : Machine) (addr len : Nat) : Option (Int × Process × Machine) := do
  if addr % pageSize ≠ 0 ∨ len = 0 then some (-22, p, m)
  else
    match roundUp len with
    | none => some (-22, p, m)
    | some rounded =>
      match ← p.space.unmapRange arch m addr rounded with
      | (.ok (), space, m) => some (0, { p with space }, m)
      | (.error _, space, m) => some (-22, { p with space }, m)

def mprotect (p : Process) (m : Machine) (address length prot : Nat) : Option (Int × Process × Machine) := do
  if address % pageSize ≠ 0 ∨ length = 0 ∨ prot / 8 ≠ 0 then some (-22, p, m)
  else
    match roundUp length with
    | none => some (-22, p, m)
    | some rounded =>
      match ← p.space.protectRange arch m address rounded (protFlags prot) with
      | (.ok (), space, m) => some (0, { p with space }, m)
      | (.error _, space, m) => some (-12, { p with space }, m)

/-- `sys_brk`; the break never moves down. -/
def sysBrk (p : Process) (m : Machine) (addr : Nat) : Option (Int × Process × Machine) := do
  let p := if p.brk = 0 then { p with brk := arch.brkBase } else p
  if addr = 0 ∨ addr ≤ p.brk then some (p.brk, p, m)
  else
    match roundUp addr with
    | none => some (p.brk, p, m)
    | some pageEnd =>
      let pageStart := (p.brk + (pageSize - 1)) / pageSize * pageSize
      match ← AddressSpace.growPages arch ⟨true, true, false, true⟩ (stepBy pageStart pageEnd) p.space m with
      | (.ok (), space, m) => some (addr, { p with space, brk := addr }, m)
      | (.error _, space, m) => some (p.brk, { p with space }, m)

/-- `sys_execve` from the new address space on. A failure drops it; success drops the old one. -/
def execve (p : Process) (m : Machine) (image : List Load) (updated : Bool) : Option (Int × Process × Machine) := do
  match ← AddressSpace.empty m with
  | (.error _, m) => some (-12, p, m)
  | (.ok replacement, m) =>
    match ← loadProgram arch image replacement m with
    | (.error _, replacement, m) =>
      let m ← replacement.drop arch m
      some (-8, p, m)
    | (.ok (), replacement, m) =>
      if updated then
        let m := { m with active := replacement.root }
        let m ← p.space.drop arch m
        some (0, { p with space := replacement, brk := 0, mmapNext := arch.mmapBase }, m)
      else
        let m ← replacement.drop arch m
        some (-38, p, m)

/-- `sys_clone`: the child, or the error number. `tid` is where a thread id goes, as far as `flags` ask for it. -/
def clone (p : Process) (m : Machine) (flags tid pid : Nat) (captured : Bool) :
    Option (Except Int Process × Machine) := do
  match ← p.space.fork arch m with
  | (.error _, m) => some (.error (-12), m)
  | (.ok space, m) =>
    if captured then
      let child : Process :=
        { space, brk := p.brk, mmapNext := p.mmapNext, live := true
          clearChildTid := if tid ≠ 0 ∧ flags &&& 0x200000 ≠ 0 then tid else 0 }
      match if tid ≠ 0 ∧ flags &&& 0x1000000 ≠ 0 then space.translate tid else none with
      | none => some (.ok child, m)
      | some paddr => some (.ok child, { m with mem := writeU32 m.mem paddr pid })
    else
      let m ← space.drop arch m
      some (.error (-38), m)

/-- `exit_current`: a zombie keeps its address space; the word at `clear_child_tid` is cleared. -/
def exit (p : Process) (m : Machine) : Option (Process × Machine) := do
  if p.clearChildTid ≠ 0 then
    match ← AddrSpace.translate arch.format m.mem p.space.root p.clearChildTid with
    | none => some ({ p with live := false }, m)
    | some paddr => some ({ p with live := false }, { m with mem := writeU32 m.mem paddr 0 })
  else some ({ p with live := false }, m)

/-- User code writes to a page that the hardware lets it write; addresses from the limit on are the kernel's. -/
def store (p : Process) (m : Machine) (vaddr : Nat) (words : Nat → Nat) : Machine :=
  match arch.translate m.mem p.space.root vaddr with
  | none => m
  | some (paddr, flags) =>
    if vaddr < arch.userAddressLimit ∧ flags.u ∧ flags.w then
      { m with mem := { m.mem with mem := Function.update m.mem.mem (paddr / pageSize * pageSize) words } }
    else m

end Process

/-! ## All processes -/

inductive Call where
  | mmap (address length prot flags : Nat) (file : Except Int (List (Nat × (Nat → Nat))))
  | munmap (addr len : Nat)
  | mprotect (address length prot : Nat)
  | brk (addr : Nat)
  | clone (flags tid : Nat) (captured : Bool)
  | execve (image : List Load) (updated : Bool)
  | exit
  | store (vaddr : Nat) (words : Nat → Nat)

/-- `init` starts the first process; the others are calls of processes, named by their place in the list. -/
inductive Event where
  | init (image : List Load)
  | call (i : Nat) (call : Call)

structure System where
  machine : Machine
  procs : List Process
  /-- Frames of replaced images. -/
  past : List Nat

/-- The frame is marked in the bitmap of the allocator. -/
def isUsed (a : FrameAllocator) (phys : Nat) : Bool :=
  a.regions.any fun r =>
    decide (r.startPpn ≤ phys / pageSize ∧ phys / pageSize < r.startPpn + r.frames) &&
      a.used (r.bitmapBase + (phys / pageSize - r.startPpn))

namespace System

variable (arch : Arch)

/-- `past` after the allocator went from `before` to `after`: what was handed out is no longer of the past. -/
def age (past : List Nat) (before after : FrameAllocator) : List Nat :=
  past.filter fun f => isUsed before f || !isUsed after f

/-- The machine moved on and no process changed. -/
def keep (w : System) (m : Machine) : System := ⟨m, w.procs, age w.past w.machine.mem.frames m.mem.frames⟩

/-- Process `i` and the machine after a call that keeps the list of processes. -/
def update (w : System) (i : Nat) (p : Process) (m : Machine) : System :=
  ⟨m, w.procs.set i p, age w.past w.machine.mem.frames m.mem.frames⟩

/-- A new process. -/
def add (w : System) (p : Process) (m : Machine) : System :=
  ⟨m, w.procs ++ [p], age w.past w.machine.mem.frames m.mem.frames⟩

/-- The frames that a map records. -/
def recorded (space : AddressSpace) : List Nat := space.pages.toList.map fun x => x.2.phys

def doCall (w : System) (i : Nat) (p : Process) : Call → Option (Int × System)
  | .mmap address length prot flags file => do
    let (r, p, m) ← p.mmap arch w.machine address length prot flags file
    some (r, w.update i p m)
  | .munmap addr len => do
    let (r, p, m) ← p.munmap arch w.machine addr len
    some (r, w.update i p m)
  | .mprotect address length prot => do
    let (r, p, m) ← p.mprotect arch w.machine address length prot
    some (r, w.update i p m)
  | .brk addr => do
    let (r, p, m) ← p.sysBrk arch w.machine addr
    some (r, w.update i p m)
  | .clone flags tid captured => do
    match ← p.clone arch w.machine flags tid (w.procs.length + 1) captured with
    | (.error e, m) => some (e, w.keep m)
    | (.ok child, m) => some ((w.procs.length + 1 : Nat), w.add child m)
  | .execve image updated => do
    let (r, p', m) ← p.execve arch w.machine image updated
    let w' := w.update i p' m
    some (r, if r = 0 then { w' with past := w'.past ++ recorded p.space } else w')
  | .exit => do
    let (p, m) ← p.exit arch w.machine
    some (0, w.update i p m)
  | .store vaddr words => some (0, w.update i p (p.store arch w.machine vaddr words))

/-- The machine when process `p` runs. -/
def onCpu (w : System) (p : Process) : System := { w with machine := { w.machine with active := p.space.root } }

/-- One event. A zombie makes no calls, and there is one first process. -/
def step (w : System) : Event → Option (Int × System)
  | .init image =>
    if w.procs = [] then do
      match ← AddressSpace.empty w.machine with
      | (.error _, m) => some (-12, w.keep m)
      | (.ok space, m) =>
        match ← loadProgram arch image space m with
        | (.error _, space, m) =>
          let m ← space.drop arch m
          some (-8, w.keep m)
        | (.ok (), space, m) =>
          some (0, w.add ⟨space, 0, arch.mmapBase, 0, true⟩ { m with active := space.root })
    else none
  | .call i call => do
    let p ← w.procs[i]?
    if p.live then (w.onCpu p).doCall arch i p call else none

def run (w : System) : List Event → Option (List Int × System)
  | [] => some ([], w)
  | event :: events => do
    let (r, w) ← w.step arch event
    let (rs, w) ← w.run events
    some (r :: rs, w)

end System

end Koros.Mm
