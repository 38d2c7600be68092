import Koros.Ext2.Stop
import Koros.Ext2.ReadOnly
import Koros.Fd.Dents
import Koros.Fd.Open
import Koros.Signal.Deliver

/-!
# Reading and writing through descriptors

`sys_read`, `sys_write`, `sys_writev`, `sys_lseek` and `sys_getdents64` of `korix/src/syscall/mod.rs`, down to the two
filesystems: `RamINode` of `kor-ramfs/src/lib.rs`, and the `read_at` and `write_at_locked` of ext2. The build is the
release one, in which `usize` and `i64` wrap around.

A call ends with a result, with a panic (an index out of range, an allocation that the heap cannot serve), or it waits for
ever for a device. What the devices answer is data of the state: `rx_get` and the socket give the answers of a list one
after the other, and nothing from then on. `room` says which allocations the heap can serve side by side.
-/
set_option autoImplicit false

namespace Koros.Io

open Koros.Lib Koros.Fd Koros.Ext2 Koros.Signal
open Koros.Dents (Listing fillEntries)

def efault : Int := -14

def einval : Int := -22

def eio : Int := -5

/-- `isize::MAX`. -/
def isizeMax : Nat := 2 ^ 63 - 1

/-- `as isize`. -/
def toIsize (n : Nat) : Int := Int.bmod n (2 ^ 64)

/-- How a call ends. -/
inductive End where
  | ret (value : Int)
  | panic
  | waits
deriving DecidableEq, Repr

/-! ## Files in memory -/

/-- A child of a `RamINode`: what `list` says of it, and its file type. -/
structure RamChild extends Dents.DirEntry where
  fileType : Vfs.FileType

/-- A `RamINode`. The content is a `Vec<u8>`; the names of the children, in their order, are parts of the paths that calls
took. -/
structure RamFile where
  fileType : Vfs.FileType
  content : List Byte
  capacity : Nat
  children : List RamChild
  fits : content.length ≤ capacity
  bounded : capacity ≤ isizeMax
  short : ∀ c ∈ children, c.name.length ≤ 4096

inductive INode where
  | ram (number : Nat)
  | ext2 (ino : Nat)
deriving DecidableEq, Repr

structure FileEntry where
  inode : INode
  offset : Nat
  offset_lt : offset < 2 ^ 64

/-- A `vec![0u8; n]`, beside the requests that are held. -/
def allocates (room : List Nat → Bool) (held : List Nat) (n : Nat) : Bool :=
  n == 0 || (n ≤ isizeMax && room (held ++ [n]))

/-- What `Vec::resize` asks for when it has to grow. -/
def growth (capacity newLen : Nat) : Nat := max 8 (max (2 * capacity) newLen)

namespace RamFile

def regular (f : RamFile) : Bool := f.fileType = .regular

/-- `list`, with the file types that `lookup` and `getattr` find. -/
def list (f : RamFile) : Except FsError Listing :=
  if f.fileType ≠ .directory then .error .notDirectory
  else
    .ok
      { entries := f.children.map (·.toDirEntry)
        fileType := fun name => (f.children.find? (·.name = name)).map (·.fileType) }

def readAt (f : RamFile) (offset len : Nat) : Except FsError (List Byte) :=
  if !f.regular then .error .invalidInput
  else if offset ≥ f.content.length then .ok []
  else .ok ((f.content.drop offset).take len)

/-- `content.resize(newLen, 0)` for a longer vector; `none` is a capacity overflow or an allocation that fails. -/
def resize (room : List Nat → Bool) (held : List Nat) (f : RamFile) (newLen : Nat) (hlen : f.content.length ≤ newLen) :
    Option RamFile :=
  if h : newLen ≤ f.capacity then
    some { f with
      content := f.content ++ List.replicate (newLen - f.content.length) 0
      fits := by simp; omega }
  else if hgrow : growth f.capacity newLen ≤ isizeMax ∧ room (held ++ [growth f.capacity newLen]) then
    some
      { f with
        content := f.content ++ List.replicate (newLen - f.content.length) 0
        capacity := growth f.capacity newLen
        fits := by simp [growth]; omega
        bounded := hgrow.1 }
  else none

/-- `content[offset..end].copy_from_slice(buf)`; `none` is a range that is none of the content. -/
def store (f : RamFile) (offset endOffset : Nat) (buf : List Byte) : Option RamFile :=
  if h : offset ≤ endOffset ∧ endOffset ≤ f.content.length ∧ endOffset - offset = buf.length then
    some { f with
      content := f.content.take offset ++ buf ++ f.content.drop endOffset
      fits := by
        have := f.fits
        simp
        omega }
  else none

/-- `write_at`; `none` is a panic. -/
def writeAt (room : List Nat → Bool) (held : List Nat) (f : RamFile) (offset : Nat) (buf : List Byte) :
    Option (Except FsError Nat × RamFile) :=
  if !f.regular then some (.error .invalidInput, f)
  else
    let endOffset := (offset + buf.length) % 2 ^ 64
    let grown := if h : endOffset > f.content.length then f.resize room held endOffset (Nat.le_of_lt h) else some f
    grown.bind fun f => (f.store offset endOffset buf).map fun f => (.ok buf.length, f)

end RamFile

/-! ## Directories of ext2 -/

def vfsFileType : Ext2.FileType → Vfs.FileType
  | .regular => .regular
  | .directory => .directory
  | .symlink => .symlink
  | .blockDevice => .blockDevice
  | .charDevice => .charDevice
  | .fifo => .fifo
  | .socket => .socket

/-- `lookup`, and `getattr` of what it found. -/
def lookupType (ino : Nat) (name : String) : FsM Ext2.FileType := do
  let child ← dirLookup ino name
  getInode child
  return (← getattr child).fileType

/-- The answer of `list`. The inodes that are looked up are dropped again. -/
def ext2Listing (ino : Nat) (fs : Ext2Fs) (items : List (String × Nat)) : Listing where
  entries := items.map fun item => ⟨asBytes item.1, item.2⟩
  fileType name := (fromUtf8 name).bind fun name =>
    match lookupType ino name fs with
    | .ok fileType _ => some (vfsFileType fileType)
    | .error _ _ => none

/-! ## The state of a call -/

/-- What the calls of a process work on. -/
structure Kernel where
  /-- The end of the user addresses. -/
  limit : Nat
  mem : UserMem
  /-- Whether the heap can serve the requests side by side. -/
  room : List Nat → Bool
  table : Table
  /-- The shared entries that the files of the table number. -/
  entry : Nat → FileEntry
  ram : Nat → RamFile
  fs : Ext2Fs
  /-- What `net::send` returns for a socket and a length. -/
  send : Nat → Nat → Except Int Nat
  /-- What the socket has for `net::recv`: nothing yet, an error, or bytes. -/
  recv : Nat → List (Option (Except Int (List Byte)))
  /-- What `rx_get` gives. -/
  console : List (Option Byte)

/-- `fs_errno`. -/
def fsErrno (e : FsError) : Int :=
  Fd.fsErrno <| match e with
    | .notFound => .notFound
    | .alreadyExists => .alreadyExists
    | .notDirectory => .notDirectory
    | .isDirectory => .isDirectory
    | .notEmpty => .notEmpty
    | .invalidInput => .invalidInput
    | .noSpace => .noSpace
    | .readOnly => .readOnly
    | .ioError => .ioError
    | .unsupported => .unsupported
    | .crossDevice => .crossDevice

namespace Kernel

/-- `checked_user_range` and `check_range`. -/
def checkRange (k : Kernel) (address length : Nat) (write : Bool) : Bool := k.mem.checkRange k.limit address length write

def setEntry (k : Kernel) (file : Nat) (e : FileEntry) : Kernel := { k with entry := Function.update k.entry file e }

/-- `entry.offset += n`. -/
def advance (k : Kernel) (file n : Nat) : Kernel :=
  k.setEntry file
    { k.entry file with
      offset := ((k.entry file).offset + n) % 2 ^ 64
      offset_lt := Nat.mod_lt _ (by decide) }

def setMem (k : Kernel) (buf : Nat) (data : List Byte) : Kernel :=
  { k with mem := { k.mem with byte := putList k.mem.byte buf data } }

/-- `copy_to_user` and the result of the call. -/
def copyOut (k : Kernel) (buf : Nat) (data : List Byte) : End × Kernel :=
  if k.checkRange buf data.length true then (.ret data.length, k.setMem buf data) else (.ret efault, k)

/-- `entry.inode.write_at` and what the call makes of its result. -/
def writeFile (k : Kernel) (file buf count : Nat) : End × Kernel :=
  let e := k.entry file
  match e.inode with
  | .ram number =>
    match (k.ram number).writeAt k.room [count] e.offset (slice k.mem.byte buf count) with
    | none => (.panic, k)
    | some (.ok written, f) => (.ret written, { k with ram := Function.update k.ram number f }.advance file written)
    | some (.error error, _) => (.ret (fsErrno error), k)
  | .ext2 ino =>
    match writeAtLocked ino e.offset (dropBytes k.mem.byte buf) count k.fs with
    | .ok written fs => (.ret written, { k with fs := fs }.advance file written)
    | .error (.err error) fs => (.ret (fsErrno error), { k with fs := fs })
    | .error .panic fs => (.panic, { k with fs := fs })

def sysWrite (k : Kernel) (fd buf count : Nat) : End × Kernel :=
  if !allocates k.room [] count then (.panic, k)
  else if !k.checkRange buf count false then (.ret efault, k)
  else
    match k.table.writeTarget fd with
    | some (.socket id) =>
      match k.send id count with
      | .ok written => (.ret (toIsize written), k)
      | .error error => (.ret error, k)
    | some (.file file) => k.writeFile file buf count
    | some .console => (.ret count, k)
    | none => (.ret ebadf, k)

/-- `read_user::<usize>`. -/
def readUsize (k : Kernel) (address : Nat) : Option Nat :=
  if k.checkRange address 8 false then some (leNat k.mem.byte address 8) else none

/-- The loop of `sys_writev`, with the index and the bytes written so far. -/
def writevLoop (fd iov : Nat) : (left index total : Nat) → Kernel → End × Kernel
  | 0, _, total, k => (.ret (toIsize total), k)
  | left + 1, index, total, k =>
    match k.readUsize ((iov + index * 16) % 2 ^ 64) with
    | none => (.ret efault, k)
    | some base =>
      match k.readUsize ((iov + index * 16 + 8) % 2 ^ 64) with
      | none => (.ret efault, k)
      | some length =>
        match k.sysWrite fd base length with
        | (.ret value, k) =>
          if value < 0 then (.ret (if total = 0 then value else toIsize total), k)
          else if total + value.toNat ≥ 2 ^ 64 then (.ret einval, k)
          else writevLoop fd iov left (index + 1) (total + value.toNat) k
        | (.panic, k) => (.panic, k)
        | (.waits, k) => (.waits, k)

def sysWritev (k : Kernel) (fd iov iovcnt : Nat) : End × Kernel :=
  if iovcnt > 1024 then (.ret einval, k) else writevLoop fd iov iovcnt 0 0 k

/-- `net::recv` asks until the socket has something; `none` waits for ever. -/
def received (count : Nat) : List (Option (Except Int (List Byte))) → Option (Except Int (List Byte))
  | [] => none
  | none :: rest => received count rest
  | some (.error error) :: _ => some (.error error)
  | some (.ok data) :: _ => some (.ok (data.take count))

/-- The second loop of a read from the console: what is there already, up to `count` bytes. -/
def takeReady : (left : Nat) → List (Option Byte) → List Byte
  | 0, _ => []
  | _, [] => []
  | _, none :: _ => []
  | left + 1, some byte :: rest => byte :: takeReady left rest

/-- A read from the console: it waits for a byte and stores it, however long the buffer is. -/
def readConsole (k : Kernel) (buf count : Nat) : List (Option Byte) → End × Kernel
  | [] => (.waits, k)
  | none :: rest => k.readConsole buf count rest
  | some byte :: rest =>
    -- `data[read] = byte` of an empty buffer
    if count = 0 then (.panic, k) else k.copyOut buf (byte :: takeReady (count - 1) rest)

/-- `entry.inode.read_at` and what the call makes of its result. -/
def readFile (k : Kernel) (file buf count : Nat) : End × Kernel :=
  let e := k.entry file
  match e.inode with
  | .ram number =>
    match (k.ram number).readAt e.offset count with
    | .ok data => (k.advance file data.length).copyOut buf data
    | .error error => (.ret (fsErrno error), k)
  | .ext2 ino =>
    match Ext2.readAt ino e.offset count k.fs with
    | .ok (data, read) fs => ({ k with fs := fs }.advance file read).copyOut buf (slice data 0 read)
    | .error (.err error) fs => (.ret (fsErrno error), { k with fs := fs })
    | .error .panic fs => (.panic, { k with fs := fs })

def sysRead (k : Kernel) (fd buf count : Nat) : End × Kernel :=
  if !k.checkRange buf count true then (.ret efault, k)
  else if !allocates k.room [] count then (.panic, k)
  else
    match k.table.readTarget fd with
    | some (.socket id) =>
      match received count (k.recv id) with
      | none => (.waits, k)
      | some (.ok data) => k.copyOut buf data
      | some (.error error) => (.ret error, k)
    | some .console => k.readConsole buf count k.console
    | some (.file file) => k.readFile file buf count
    | none => (.ret ebadf, k)

/-- The position that `sys_lseek` computes, as an `i64`. -/
def newOffset (old offset whence : Nat) : Int :=
  match whence with
  | 0 => toIsize offset
  | 1 => Int.bmod (old + toIsize offset) (2 ^ 64)
  | _ => -1

def sysLseek (k : Kernel) (fd offset whence : Nat) : End × Kernel :=
  match k.table.files[fd]? with
  | none => (.ret ebadf, k)
  | some file =>
    let new := newOffset (k.entry file).offset offset whence
    if new < 0 then (.ret einval, k)
    else
      (.ret new, k.setEntry file
        { k.entry file with offset := new.toNat % 2 ^ 64, offset_lt := Nat.mod_lt _ (by decide) })

/-- `entry.inode.list()`. -/
def list (k : Kernel) : INode → Except Fault Listing
  | .ram number => (k.ram number).list.mapError .err
  | .ext2 ino =>
    match dirList ino k.fs with
    | .ok items _ => .ok (ext2Listing ino k.fs items)
    | .error fault _ => .error fault

def sysGetdents64 (k : Kernel) (fd buf count : Nat) : End × Kernel :=
  match k.table.files[fd]? with
  | none => (.ret ebadf, k)
  | some file =>
    match k.list (k.entry file).inode with
    | .error (.err _) => (.ret eio, k)
    | .error .panic => (.panic, k)
    | .ok dir =>
      let start := min (k.entry file).offset dir.entries.length
      if !allocates k.room [] count then (.panic, k)
      else
        match fillEntries dir count (dir.entries.drop start) start 0 (List.replicate count 0) with
        | none => (.panic, k)
        | some (out, offset, index) =>
          if !k.checkRange buf offset true then (.ret efault, k)
          else
            (.ret offset, (k.setMem buf (out.take offset)).setEntry file
              { k.entry file with offset := index % 2 ^ 64, offset_lt := Nat.mod_lt _ (by decide) })

end Kernel

end Koros.Io
