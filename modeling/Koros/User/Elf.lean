import Koros.Lib.Effect
import Koros.User.Stack

/-!
# Loading ELF files

`header` and `program_header` of `korix/src/user/elf_format.rs`, `interpreter_path`, `map_elf` and `load_active` of
`korix/src/user/elf.rs`. A sum that overflows is a failure in a checked build and wraps around in the release one
(`Build`); it and a slice out of range are apart from the errors that the loader returns. Where nothing else is said, the
build is the checked one.
-/
set_option autoImplicit false

namespace Koros.Elf

open Koros.Frame Koros.Mmu Koros.Lib Koros.Mm

/-! ## Checked arithmetic -/

/-- Why a call ends early: with an error, or with a panic, the last of which is one inside `map_zeroed`. -/
inductive Failure where
  | refused (message : String)
  | overflow
  | outOfRange
  | mapZeroed
deriving DecidableEq, Repr

/-- How the loader is built: whether a result that does not fit wraps around. -/
class Build where
  wraps : Bool

/-- A result that must fit, and what it would be without end. -/
def orOverflow [Build] (x : Option Nat) (full : Nat) : Except Failure Nat :=
  match x with
  | none => if Build.wraps then pure (full % 2 ^ 64) else throw .overflow
  | some a => pure a

/-- `a + b`. -/
def add [Build] (a b : Nat) : Except Failure Nat := orOverflow (checkedAdd a b) (a + b)

/-- `a - b`. -/
def sub [Build] (a b : Nat) : Except Failure Nat := orOverflow (checkedSub a b) (2 ^ 64 + a - b)

/-- `a * b`. -/
def mul [Build] (a b : Nat) : Except Failure Nat := orOverflow (checkedMul a b) (a * b)

/-- `data.get(start..stop)`. -/
def getRange (data : List Byte) (start stop : Nat) : Option (List Byte) :=
  if start ≤ stop ∧ stop ≤ data.length then some ((data.drop start).take (stop - start)) else none

/-- `&data[start..stop]`. -/
def index (data : List Byte) (start stop : Nat) : Except Failure (List Byte) :=
  match getRange data start stop with
  | none => throw .outOfRange
  | some bytes => pure bytes

/-- `.ok_or(message)?`. -/
def okOr {α : Type} (x : Option α) (message : String) : Except Failure α :=
  match x with
  | none => throw (.refused message)
  | some a => pure a

/-- `if condition { return Err(message); }`. -/
def errIf (condition : Prop) [Decidable condition] (message : String) : Except Failure Unit :=
  if condition then throw (.refused message) else pure ()

/-! ## Headers -/

structure ElfHeader where
  ident : List Byte
  elfType : Nat
  machine : Nat
  entry : Nat
  programOffset : Nat
  headerSize : Nat
  programEntrySize : Nat
  programCount : Nat
deriving DecidableEq, Repr

structure ProgramHeader where
  segmentType : Nat
  flags : Nat
  offset : Nat
  virtualAddress : Nat
  fileSize : Nat
  memorySize : Nat
deriving DecidableEq, Repr

/-- `ELF_HEADER_SIZE`. -/
def elfHeaderSize : Nat := 64

/-- `read_u16`, `read_u32` and `read_u64`, for 2, 4 and 8 bytes. -/
def read [Build] (n : Nat) (data : List Byte) (offset : Nat) : OptionT (Except Failure) Nat := do
  let stop ← add offset n
  let bytes ← OptionT.mk (pure (getRange data offset stop))
  pure (leNat (fun i => bytes.getD i 0) 0 n)

/-- The fields of `RawElfHeader` that the loader uses, at their offsets. -/
def header [Build] (data : List Byte) : OptionT (Except Failure) ElfHeader := do
  let ident ← OptionT.mk (pure (getRange data 0 16))
  let elfType ← read 2 data 16
  let machine ← read 2 data 18
  let entry ← read 8 data 24
  let programOffset ← read 8 data 32
  let headerSize ← read 2 data 52
  let programEntrySize ← read 2 data 54
  let programCount ← read 2 data 56
  pure { ident, elfType, machine, entry, programOffset, headerSize, programEntrySize, programCount }

/-- The fields of `RawProgramHeader` that the loader uses, at their offsets. -/
def programHeader [Build] (data : List Byte) (offset : Nat) : OptionT (Except Failure) ProgramHeader := do
  let stop ← OptionT.mk (pure (checkedAdd offset programHeaderSize))
  let data ← OptionT.mk (pure (getRange data offset stop))
  let segmentType ← read 4 data 0
  let flags ← read 4 data 4
  let fileOffset ← read 8 data 8
  let virtualAddress ← read 8 data 16
  let fileSize ← read 8 data 32
  let memorySize ← read 8 data 40
  pure { segmentType, flags, offset := fileOffset, virtualAddress, fileSize, memorySize }

/-- `.ok_or(message)?` after a header was read. -/
def orRefuse {α : Type} (x : OptionT (Except Failure) α) (message : String) : Except Failure α := do
  okOr (← x.run) message

/-- `PT_LOAD`. -/
def ptLoad : Nat := 1

/-- `PT_INTERP`. -/
def ptInterp : Nat := 3

/-- `&data[0..4] == b"\x7fELF"`. -/
def isElf (data : List Byte) : Bool := decide (data.length ≥ 4) && data.take 4 == [0x7f, 0x45, 0x4c, 0x46]

/-! ## The interpreter -/

/-- `path.strip_suffix(&[0]).unwrap_or(path)`. -/
def stripNul (path : List Byte) : List Byte := if path.getLast? = some 0 then path.dropLast else path

/-- The loop of `interpreter_path`. -/
def findInterpreter [Build] (data : List Byte) (header : ElfHeader) : List Nat → Except Failure (Option String)
  | [] => pure none
  | i :: rest => do
    let size ← okOr (checkedMul i programHeaderSize) "program header overflow"
    let offset ← okOr (checkedAdd header.programOffset size) "program header overflow"
    let phdr ← orRefuse (programHeader data offset) "program header outside image"
    if phdr.segmentType ≠ ptInterp then findInterpreter data header rest
    else
      let start := phdr.offset
      let stop ← okOr (checkedAdd start phdr.fileSize) "interpreter path overflow"
      let path ← okOr (getRange data start stop) "interpreter path outside image"
      let path ← okOr (fromUtf8 (stripNul path)) "invalid interpreter path"
      pure (some path)

/-- The path that the file requests, if any. -/
def interpreterPath [Build] (data : List Byte) : Except Failure (Option String) := do
  let header ← orRefuse (header data) "ELF header too small"
  findInterpreter data header (List.range header.programCount)

/-! ## The checks of `map_elf` -/

/-- `expected_machine`. -/
def expectedMachine : Mm.Arch → Nat
  | .riscv64 => 243
  | .aarch64 => 183
  | .x86_64 => 62

/-- `LOAD_BASE`. -/
def loadBase : Nat := 0x10000

/-- The load base by the type of the file. -/
def defaultBase (elfType : Nat) : Except Failure Nat :=
  if elfType = 3 then pure loadBase
  else if elfType = 2 then pure 0
  else throw (.refused "unsupported ELF type")

/-- What `map_elf` checks before `load_active`: the header and the load base. -/
def acceptHeader [Build] (arch : Mm.Arch) (data : List Byte) (forcedBase : Option Nat) : Except Failure (ElfHeader × Nat) := do
  errIf (isElf data = false) "not an ELF file"
  let header ← orRefuse (header data) "ELF header too small"
  errIf (header.ident.getD 4 0 ≠ 2 ∨ header.machine ≠ expectedMachine arch) "wrong ELF architecture"
  errIf (header.headerSize ≠ elfHeaderSize ∨ header.programEntrySize ≠ programHeaderSize) "invalid ELF header sizes"
  let base ← defaultBase header.elfType
  let size ← okOr (checkedMul header.programCount programHeaderSize) "program header overflow"
  let programHeaderEnd ← okOr (checkedAdd header.programOffset size) "program header overflow"
  errIf (programHeaderEnd > data.length) "program headers outside image"
  pure (header, forcedBase.getD base)

/-! ## The loops of `load_active` -/

structure AuxImage where
  entry : Nat
  phdrAddr : Nat
  phnum : Nat
deriving DecidableEq, Repr

/-- The flags of the pages, `page_flags`. -/
abbrev PageFlags := Std.TreeMap Nat MappingFlags

/-- `a | b` on flags. -/
def orFlags (a b : MappingFlags) : MappingFlags := ⟨a.r || b.r, a.w || b.w, a.x || b.x, a.u || b.u⟩

/-- The flags of a segment: `U`, and `R`, `W` and `X` as `PF_R`, `PF_W` and `PF_X` say. -/
def segmentFlags (phdr : ProgramHeader) : MappingFlags :=
  ⟨phdr.flags &&& 4 != 0, phdr.flags &&& 2 != 0, phdr.flags &&& 1 != 0, true⟩

section Loops

variable (data : List Byte) (header : ElfHeader) (base : Nat)

/-- The program header with the given index. -/
def programHeaderAt [Build] (i : Nat) : Except Failure ProgramHeader := do
  let size ← mul i programHeaderSize
  let offset ← add header.programOffset size
  orRefuse (programHeader data offset) "program header outside image"

/-- The pages of a segment in the first loop. -/
def firstPages [Build] (phdr : ProgramHeader) : Except Failure (List Nat) := do
  let start ← add base phdr.virtualAddress
  let stop ← add start phdr.memorySize
  let stop ← add stop pageSize
  let stop ← sub stop 1
  pure (stepBy (pageOf start) (pageOf stop))

/-- `.entry(page).and_modify(|combined| *combined | flags).or_insert(flags)`. -/
def addFlags (flags : MappingFlags) (pageFlags : PageFlags) (page : Nat) : PageFlags :=
  pageFlags.insert page (match pageFlags[page]? with
    | none => flags
    | some combined => orFlags combined flags)

/-- The first loop, over the program headers with the given indices. -/
def collectFlags [Build] : List Nat → PageFlags → Except Failure PageFlags
  | [], pageFlags => pure pageFlags
  | i :: rest, pageFlags => do
    let phdr ← programHeaderAt data header i
    if phdr.segmentType ≠ ptLoad then collectFlags rest pageFlags
    else
      let pages ← firstPages base phdr
      collectFlags rest (pages.foldl (addFlags (segmentFlags phdr)) pageFlags)

/-- The checks of the second loop: the address of the segment and its pages. -/
def checkSegment (arch : Mm.Arch) (phdr : ProgramHeader) : Except Failure (Nat × List Nat) := do
  let segVaddr ← okOr (checkedAdd base phdr.virtualAddress) "segment address overflow"
  let segEnd ← okOr (checkedAdd segVaddr phdr.memorySize) "segment address overflow"
  errIf (phdr.fileSize > phdr.memorySize) "segment file size exceeds memory size"
  let fileEnd ← okOr (checkedAdd phdr.offset phdr.fileSize) "segment file overflow"
  errIf (fileEnd > data.length ∨ segVaddr ≥ arch.userAddressLimit ∨ segEnd > arch.userAddressLimit)
    "segment outside user address space"
  let pageEnd ← okOr (checkedAdd segEnd (pageSize - 1)) "segment address overflow"
  pure (segVaddr, stepBy (pageOf segVaddr) (pageOf pageEnd))

/-- The bytes of the file that go into a page, and where in the page they start. -/
def fileWindow [Build] (phdr : ProgramHeader) (segVaddr vaddr : Nat) : Except Failure (Nat × List Byte) := do
  let segStartInPage := segVaddr - vaddr
  let segOff := vaddr - segVaddr
  if segOff < phdr.fileSize ∧ segStartInPage < pageSize then
    let copyStart ← add phdr.offset segOff
    let copyLen := min (← sub pageSize segStartInPage) (← sub phdr.fileSize segOff)
    let copyEnd ← add copyStart copyLen
    if copyStart < copyEnd ∧ copyEnd ≤ data.length then
      pure (segStartInPage, ← index data copyStart copyEnd)
    else pure (segStartInPage, [])
  else pure (segStartInPage, [])

/-- The part of a page that is zeroed: its start and its length. -/
def bssWindow [Build] (phdr : ProgramHeader) (segVaddr vaddr : Nat) : Except Failure (Nat × Nat) := do
  let segStartInPage := segVaddr - vaddr
  let segOff := vaddr - segVaddr
  let room ← sub pageSize segStartInPage
  let dataInPage := min (phdr.fileSize - segOff) room
  let memInPage := min (phdr.memorySize - segOff) room
  if dataInPage < memInPage then
    let bssStart ← add segStartInPage dataInPage
    let bssEnd ← add segStartInPage memInPage
    pure (bssStart, ← sub bssEnd bssStart)
  else pure (0, 0)

end Loops

/-- A call that changes the address space and the machine. -/
abbrev Loader (α : Type) := EStateM Failure (AddressSpace × Machine) α

/-- A part of it that changes nothing. -/
def compute {α : Type} (x : Except Failure α) : Loader α := settle x

/-- `map_zeroed(vaddr, flags).map_err(|_| "map failed")?`. -/
def mapPage (arch : Mm.Arch) (vaddr : Nat) (flags : MappingFlags) : Loader Nat := fun (space, m) =>
  match space.mapZeroed arch m vaddr flags with
  | none => .error .mapZeroed (space, m)
  | some (.error _, space, m) => .error (.refused "map failed") (space, m)
  | some (.ok paddr, space, m) => .ok paddr (space, m)

/-- The frame of a page, which is mapped if it was not. -/
def framePage (arch : Mm.Arch) (vaddr : Nat) (flags : MappingFlags) : Loader Nat := do
  let (space, _) ← get
  match space.translate vaddr with
  | some paddr => pure paddr
  | none => mapPage arch vaddr flags

/-- A copy into physical memory. -/
def store (paddr : Nat) (bytes : List Byte) : Loader Unit :=
  modify fun (space, m) => (space, { m with mem := copyTo m.mem paddr bytes })

section Segments

variable (arch : Mm.Arch) (data : List Byte) (header : ElfHeader) (base : Nat) (pageFlags : PageFlags)

/-- One page of a segment: it is mapped if it is not, filled from the file, and zeroed behind that. -/
def fillPage [Build] (phdr : ProgramHeader) (segVaddr vaddr : Nat) : Loader Unit := do
  let paddr ← framePage arch vaddr ((pageFlags[vaddr]?).getD (segmentFlags phdr))
  let (segStartInPage, bytes) ← compute (fileWindow data phdr segVaddr vaddr)
  store (paddr + segStartInPage) bytes
  let (bssStart, length) ← compute (bssWindow phdr segVaddr vaddr)
  store (paddr + bssStart) (List.replicate length 0)

/-- One segment. -/
def loadSegment [Build] (phdr : ProgramHeader) : Loader Unit := do
  let (segVaddr, pages) ← compute (checkSegment data base arch phdr)
  pages.forM (fillPage arch data pageFlags phdr segVaddr)

/-- The second loop. -/
def loadSegments [Build] : List Nat → Loader Unit
  | [] => pure ()
  | i :: rest => do
    let phdr ← compute (programHeaderAt data header i)
    if phdr.segmentType ≠ ptLoad then loadSegments rest
    else
      loadSegment arch data base pageFlags phdr
      loadSegments rest

/-- The third loop: the address of the program headers is `phdrAddr` unless a segment holds them. -/
def findPhdrAddr [Build] (phdrAddr : Nat) : List Nat → Except Failure Nat
  | [] => pure phdrAddr
  | i :: rest => do
    let phdr ← programHeaderAt data header i
    if phdr.segmentType = ptLoad then
      let fileOffset := header.programOffset
      if fileOffset ≥ phdr.offset then
        if fileOffset < (← add phdr.offset phdr.fileSize) then
          let a ← add base phdr.virtualAddress
          let d ← sub fileOffset phdr.offset
          add a d
        else findPhdrAddr phdrAddr rest
      else findPhdrAddr phdrAddr rest
    else findPhdrAddr phdrAddr rest

/-- What `load_active` returns after the segments are loaded. -/
def auxImage [Build] : Except Failure AuxImage := do
  let entry ← add base header.entry
  let phdrAddr ← add base header.programOffset
  let phdrAddr ← findPhdrAddr data header base phdrAddr (List.range header.programCount)
  pure { entry, phdrAddr, phnum := header.programCount }

def loadActive [Build] : Loader AuxImage := do
  let pageFlags ← compute (collectFlags data header base (List.range header.programCount) ∅)
  loadSegments arch data header base pageFlags (List.range header.programCount)
  compute (auxImage data header base)

def mapElf [Build] (forcedBase : Option Nat) : Loader AuxImage := do
  let (header, base) ← compute (acceptHeader arch data forcedBase)
  loadActive arch data header base

end Segments

instance checkedBuild : Build := ⟨false⟩

/-- The build of the Makefile. -/
abbrev releaseBuild : Build := ⟨true⟩

end Koros.Elf
