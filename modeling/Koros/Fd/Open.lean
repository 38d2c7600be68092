import Koros.Fd.Table
import Koros.Vfs.Types

/-!
# `openat`

`sys_openat` of `korix/src/syscall/mod.rs` with the path handling before it (`normalize_absolute`, `absolute_path`,
`split_absolute_parent`) and the way `sys_read` and `sys_write` look a descriptor up. The filesystems behind `fs::resolve`
and the `INode` trait are a parameter. A `Machine` is what the call works on: the descriptor table, the shared file
entries, the working directory and the state of the filesystems.

**`openat_fresh_iff`** says for which paths an `openat` that succeeds gives a fresh descriptor for the named object.
-/
set_option autoImplicit false

namespace Koros.Fd

open Koros.Lib Koros.Vfs

/-! ## Paths -/

/-- The loop of `normalize_absolute` over the components. -/
def normalizeComponents (components : List Str) : List Str :=
  components.foldl (fun kept component =>
    if component = [] ∨ component = ['.'] then kept
    else if component = ['.', '.'] then kept.dropLast
    else kept ++ [component]) []

def normalizeAbsolute (path : Str) : Option Str :=
  if path.head? = some '/' then some ('/' :: ['/'].intercalate (normalizeComponents (path.splitOn '/'))) else none

/-- `is_at_fdcwd`: -100 as an `isize` or as the low 32 bits. -/
def isAtFdcwd (dirfd : Nat) : Bool := dirfd == 2 ^ 64 - 100 || dirfd % 2 ^ 32 == 2 ^ 32 - 100

/-- `rsplit_once('/')`. -/
def rsplitOnce (path : Str) : Option (Str × Str) :=
  if '/' ∈ path then
    some (((path.reverse.dropWhile (· ≠ '/')).drop 1).reverse, (path.reverse.takeWhile (· ≠ '/')).reverse)
  else none

def splitAbsoluteParent (path : Str) : Except Int (Str × Str) :=
  if path = ['/'] then .error (-16)
  else
    match rsplitOnce path with
    | none => .error (-22)
    | some (parent, name) =>
      if name = [] ∨ name = ['.'] ∨ name = ['.', '.'] then .error (-22)
      else .ok (if parent = [] then ['/'] else parent, name)

/-! ## The filesystems -/

structure Metadata where
  fileType : FileType
  size : Nat

/-- `fs::resolve` and the operations of `INode` that the call uses. -/
structure FileSystem where
  State : Type
  INode : Type
  resolve : State → Str → Except FsError INode
  create : State → INode → Str → FileType → Nat → Except FsError INode × State
  lookup : State → INode → Str → Except FsError INode
  truncate : State → INode → Nat → Except FsError Unit × State
  getattr : State → INode → Except FsError Metadata

def fsErrno : FsError → Int
  | .notFound => -2
  | .alreadyExists => -17
  | .notDirectory => -20
  | .notEmpty => -39
  | .tooManyLinks => -40
  | .crossDevice => -18
  | .permissionDenied => -13
  | .isDirectory => -21
  | .invalidInput => -22
  | .readOnly => -30
  | .noSpace => -28
  | .unsupported => -38
  | .ioError => -5

structure FileEntry (fs : FileSystem) where
  inode : fs.INode
  offset : Nat
  path : Str

/-- A process with its shared file entries. A file in the table is one of the entries. -/
structure Machine (fs : FileSystem) where
  table : Table
  entries : List (FileEntry fs)
  cwd : Str
  state : fs.State
  shared : ∀ fd file : Nat, table.files[fd]? = some file → file < entries.length

inductive Arch where
  | riscv64
  | aarch64
  | x86_64
deriving DecidableEq, Repr

section Open

variable {fs : FileSystem}

/-- `current_file`. -/
def Machine.currentFile (m : Machine fs) (fd : Nat) : Option (FileEntry fs) :=
  (m.table.files[fd]?).bind fun file => m.entries[file]?

def absolutePath (m : Machine fs) (dirfd : Nat) (path : Str) : Except Int Str :=
  if path.head? = some '/' then (normalizeAbsolute path).elim (.error (-22)) .ok
  else
    let base : Except Int Str :=
      if isAtFdcwd dirfd then .ok m.cwd
      else
        match m.currentFile dirfd with
        | none => .error ebadf
        | some entry =>
          match fs.getattr m.state entry.inode with
          | .error e => .error (fsErrno e)
          | .ok metadata => if metadata.fileType ≠ .directory then .error (-20) else .ok entry.path
    match base with
    | .error e => .error e
    | .ok base => (normalizeAbsolute (base ++ '/' :: path)).elim (.error (-22)) .ok

/-- `user_absolute_path`, from the string that was read from user memory, if it could be. -/
def userAbsolutePath (m : Machine fs) (dirfd : Nat) (path : Option Str) : Except Int Str :=
  match path with
  | none => .error (-14)
  | some path => if path = [] then .error (-2) else absolutePath m dirfd path

def oCreat : Nat := 0o100

def oExcl : Nat := 0o200

def oTrunc : Nat := 0o1000

def oDirectory : Nat := 0o200000

def oTmpfile : Nat := 0o20000000

def hasFlag (flags flag : Nat) : Bool := flags &&& flag != 0

/-- The path that is opened: `O_TMPFILE` names a file in the directory. -/
def openPath (m : Machine fs) (dirfd : Nat) (path : Option Str) (flags : Nat) : Except Int Str :=
  match userAbsolutePath m dirfd path with
  | .error e => .error e
  | .ok path =>
    if hasFlag flags oTmpfile then
      .ok ((if path = ['/'] then path else path ++ ['/']) ++ ".korix-tmp".toList)
    else .ok path

def devNull : Str := "/dev/null".toList

def devTty : Str := "/dev/tty".toList

def devConsole : Str := "/dev/console".toList

/-- The inode of a temporary file: it is made, or found and cut to length zero. -/
def openTemporary (fs : FileSystem) (s : fs.State) (path : Str) (mode : Nat) : Except Int fs.INode × fs.State :=
  match splitAbsoluteParent path with
  | .error e => (.error e, s)
  | .ok (parentPath, name) =>
    match fs.resolve s parentPath with
    | .error e => (.error (fsErrno e), s)
    | .ok parent =>
      match fs.create s parent name .regular (mode % 2 ^ 32 &&& 0o777) with
      | (.ok node, s) => (.ok node, s)
      | (.error .alreadyExists, s) =>
        match fs.lookup s parent name with
        | .error e => (.error (fsErrno e), s)
        | .ok node =>
          match fs.truncate s node 0 with
          | (.error e, s) => (.error (fsErrno e), s)
          | (.ok (), s) => (.ok node, s)
      | (.error e, s) => (.error (fsErrno e), s)

/-- The inode of a path: it is found, or made with `O_CREAT`. -/
def openNamed (fs : FileSystem) (s : fs.State) (path : Str) (flags mode : Nat) : Except Int fs.INode × fs.State :=
  match fs.resolve s path with
  | .ok inode => if hasFlag flags oCreat && hasFlag flags oExcl then (.error (-17), s) else (.ok inode, s)
  | .error e =>
    if e = .notFound ∧ hasFlag flags oCreat then
      match splitAbsoluteParent path with
      | .error e => (.error e, s)
      | .ok (parentPath, name) =>
        match fs.resolve s parentPath with
        | .error e => (.error (fsErrno e), s)
        | .ok parent =>
          match fs.create s parent name .regular (mode % 2 ^ 32 &&& 0o777) with
          | (.ok node, s) => (.ok node, s)
          | (.error e, s) => (.error (fsErrno e), s)
    else (.error (fsErrno e), s)

/-- The checks on the inode, and `O_TRUNC`. -/
def openChecked (fs : FileSystem) (s : fs.State) (inode : fs.INode) (flags : Nat) : Except Int Unit × fs.State :=
  match fs.getattr s inode with
  | .error e => (.error (fsErrno e), s)
  | .ok metadata =>
    if hasFlag flags oDirectory && metadata.fileType ≠ .directory then (.error (-20), s)
    else if hasFlag flags oTrunc && metadata.fileType = .regular && metadata.size ≠ 0 then
      match fs.truncate s inode 0 with
      | (.error e, s) => (.error (fsErrno e), s)
      | (.ok (), s) => (.ok (), s)
    else (.ok (), s)

/-- `alloc_fd`. -/
def Machine.allocFd (m : Machine fs) (inode : fs.INode) (path : Str) : Nat × Machine fs :=
  (m.table.nextFd,
    { m with
      table := m.table.install m.table.nextFd (.file m.entries.length)
      entries := m.entries ++ [⟨inode, 0, path⟩]
      shared := by
        intro fd file h
        simp only [Table.install, getElem?_insertKey] at h
        rw [List.length_append, List.length_singleton]
        split at h
        · cases h
          exact Nat.lt_succ_self _
        · exact Nat.lt_succ_of_lt (m.shared fd file h) })

def Machine.setState (m : Machine fs) (s : fs.State) : Machine fs := { m with state := s }

def sysOpenat (arch : Arch) (m : Machine fs) (dirfd : Nat) (path : Option Str) (flags mode : Nat) :
    Except Int Nat × Machine fs :=
  match openPath m dirfd path flags with
  | .error e => (.error e, m)
  | .ok path =>
    if path = devNull then (.ok 3, m)
    else if path = devTty ∨ path = devConsole then (.ok (if arch = .x86_64 then 0 else 3), m)
    else
      let flags' := if hasFlag flags oTmpfile then flags - oTmpfile else flags
      match if hasFlag flags oTmpfile then openTemporary fs m.state path mode else openNamed fs m.state path flags' mode with
      | (.error e, s) => (.error e, m.setState s)
      | (.ok inode, s) =>
        match openChecked fs s inode flags' with
        | (.error e, s) => (.error e, m.setState s)
        | (.ok (), s) =>
          let (fd, m) := (m.setState s).allocFd inode path
          (.ok fd, m)

/-! ## How a descriptor is looked up -/

/-- What a read or a write acts on. -/
inductive Target where
  | socket (id : Nat)
  | console
  | file (file : Nat)
deriving DecidableEq, Repr

/-- `stdio_target`. -/
def Table.stdioTarget (t : Table) (fd : Nat) : Option Nat := if fd ≤ 2 then some fd else t.stdio[fd]?

/-- The order in which `sys_read` looks. -/
def Table.readTarget (t : Table) (fd : Nat) : Option Target :=
  match t.sockets[fd]? with
  | some id => some (.socket id)
  | none =>
    if t.stdioTarget fd = some 0 then some .console
    else (t.files[fd]?).map .file

/-- The order in which `sys_write` looks. -/
def Table.writeTarget (t : Table) (fd : Nat) : Option Target :=
  match t.sockets[fd]? with
  | some id => some (.socket id)
  | none =>
    match t.files[fd]? with
    | some file => some (.file file)
    | none => if t.stdioTarget fd = some 1 ∨ t.stdioTarget fd = some 2 then some .console else none

/-- The object that a path names. -/
inductive Named (fs : FileSystem) where
  | null
  | console
  | inode (inode : fs.INode)

/-- A descriptor is open: it is in one of the maps, or it is a standard stream. -/
def Table.Open (t : Table) (fd : Nat) : Prop := fd ≤ 2 ∨ t.used fd = true

/-- Reads and writes of the descriptor act on the object. There is no null device to act on. -/
def Machine.ActsOn (m : Machine fs) (fd : Nat) : Named fs → Prop
  | .null => False
  | .console => m.table.readTarget fd = some .console ∧ m.table.writeTarget fd = some .console
  | .inode inode =>
    ∃ file entry, m.table.readTarget fd = some (.file file) ∧ m.table.writeTarget fd = some (.file file) ∧
      m.entries[file]? = some entry ∧ entry.inode = inode

/-- A descriptor denotes the same object: the lookups give what they gave, and a file is the same entry. -/
def Machine.Denotes (m m' : Machine fs) (fd : Nat) : Prop :=
  m'.table.readTarget fd = m.table.readTarget fd ∧ m'.table.writeTarget fd = m.table.writeTarget fd ∧
    m'.currentFile fd = m.currentFile fd

/-- The filesystems give the inode for the path: it is found there, or under that name in the parent, or made there. -/
def GivenFor (fs : FileSystem) (s : fs.State) (path : Str) (inode : fs.INode) : Prop :=
  fs.resolve s path = .ok inode ∨
    ∃ parentPath name parent mode, splitAbsoluteParent path = .ok (parentPath, name) ∧
      fs.resolve s parentPath = .ok parent ∧
      ((fs.create s parent name .regular mode).1 = .ok inode ∨
        (fs.create s parent name .regular mode).1 = .error .alreadyExists ∧
          fs.lookup (fs.create s parent name .regular mode).2 parent name = .ok inode)

/-- The object that an absolute path names. -/
inductive Names (fs : FileSystem) (s : fs.State) : Str → Named fs → Prop
  | null : Names fs s devNull .null
  | tty : Names fs s devTty .console
  | console : Names fs s devConsole .console
  | inode {path : Str} {inode : fs.INode} (hnull : path ≠ devNull) (htty : path ≠ devTty) (hconsole : path ≠ devConsole)
      (h : GivenFor fs s path inode) : Names fs s path (.inode inode)

/-! ## The inode is the one of the path -/

theorem openNamed_given {s : fs.State} {path : Str} {flags mode : Nat} {inode : fs.INode}
    (h : (openNamed fs s path flags mode).1 = .ok inode) : GivenFor fs s path inode := by
  unfold openNamed at h
  split at h
  · next hr =>
    split at h
    · cases h
    · cases h
      exact .inl hr
  split at h
  · split at h
    · cases h
    next parentPath name hsplit =>
    split at h
    · cases h
    next parent hparent =>
    split at h
    · next hc =>
      cases h
      exact .inr ⟨parentPath, name, parent, _, hsplit, hparent, .inl (by rw [hc])⟩
    · cases h
  · cases h

theorem openTemporary_given {s : fs.State} {path : Str} {mode : Nat} {inode : fs.INode}
    (h : (openTemporary fs s path mode).1 = .ok inode) : GivenFor fs s path inode := by
  unfold openTemporary at h
  split at h
  · cases h
  next parentPath name hsplit =>
  split at h
  · cases h
  next parent hparent =>
  split at h
  · next hc =>
    cases h
    exact .inr ⟨parentPath, name, parent, _, hsplit, hparent, .inl (by rw [hc])⟩
  · next hc =>
    split at h
    · cases h
    next node hl =>
    split at h
    · cases h
    · cases h
      exact .inr ⟨parentPath, name, parent, _, hsplit, hparent, .inr ⟨by rw [hc], by rw [hc]; exact hl⟩⟩
  · cases h

/-! ## The new descriptor -/

theorem not_open_nextFd (t : Table) : ¬ t.Open t.nextFd := by
  obtain ⟨hle, hfree, -⟩ := t.nextFd_spec
  rintro (h | h)
  · omega
  · rw [hfree] at h
    cases h

/-- The lookups of a descriptor depend on its entry. -/
theorem readTarget_congr {t t' : Table} {fd : Nat} (h : t'.entry fd = t.entry fd) :
    t'.readTarget fd = t.readTarget fd ∧ t'.writeTarget fd = t.writeTarget fd := by
  simp only [Table.entry, Table.Entry.mk.injEq] at h
  obtain ⟨hfile, hstdio, hsocket, -⟩ := h
  simp only [Table.readTarget, Table.writeTarget, Table.stdioTarget, hfile, hstdio, hsocket]
  exact ⟨rfl, rfl⟩

theorem allocFd_acts (m : Machine fs) (inode : fs.INode) (path : Str) :
    (m.allocFd inode path).2.ActsOn (m.allocFd inode path).1 (.inode inode) := by
  obtain ⟨hle, hfree, -⟩ := m.table.nextFd_spec
  obtain ⟨-, hstdio, hsocket⟩ := Table.used_eq_false_iff.1 hfree
  have hnot : ¬ m.table.nextFd ≤ 2 := by omega
  refine ⟨m.entries.length, ⟨inode, 0, path⟩, ?_, ?_, ?_, rfl⟩
  · simp only [Machine.allocFd, Table.readTarget, Table.install, Table.stdioTarget, hsocket, hstdio, hnot]
    simp
  · simp only [Machine.allocFd, Table.writeTarget, Table.install, hsocket]
    simp
  · simp [Machine.allocFd]

theorem allocFd_denotes (m : Machine fs) (inode : fs.INode) (path : Str) {d : Nat} (hd : m.table.Open d) :
    m.Denotes (m.allocFd inode path).2 d := by
  have hne : d ≠ m.table.nextFd := by
    rintro rfl
    exact not_open_nextFd _ hd
  have hentry : (m.allocFd inode path).2.table.entry d = m.table.entry d := Table.entry_install _ hne
  refine ⟨(readTarget_congr hentry).1, (readTarget_congr hentry).2, ?_⟩
  have hfile : (m.allocFd inode path).2.table.files[d]? = m.table.files[d]? := congrArg Table.Entry.file hentry
  unfold Machine.currentFile
  rw [hfile]
  cases hf : m.table.files[d]? with
  | none => rfl
  | some file =>
    show (m.entries ++ [_])[file]? = m.entries[file]?
    exact List.getElem?_append_left (m.shared d file hf)

/-! ## The call -/

/-- A call that returns a descriptor: it was not open, reads and writes of it act on the object that the path names, and
every descriptor that was open denotes what it did. -/
def OpensFresh (m : Machine fs) (absolute : Except Int Str) (fd : Nat) (m' : Machine fs) : Prop :=
  ¬ m.table.Open fd ∧
    (∃ path object, absolute = .ok path ∧ Names fs m.state path object ∧ m'.ActsOn fd object) ∧
    ∀ d, m.table.Open d → m.Denotes m' d

theorem opensFresh_of_named {arch : Arch} {m m' : Machine fs} {dirfd flags mode fd : Nat} {path : Option Str}
    {absolute : Str} (hpath : openPath m dirfd path flags = .ok absolute) (hnull : absolute ≠ devNull)
    (htty : absolute ≠ devTty) (hconsole : absolute ≠ devConsole)
    (h : sysOpenat arch m dirfd path flags mode = (.ok fd, m')) :
    OpensFresh m (openPath m dirfd path flags) fd m' := by
  simp only [sysOpenat, hpath, if_neg hnull, if_neg (not_or.2 ⟨htty, hconsole⟩)] at h
  split at h
  · cases h
  next inode s hinode =>
  split at h
  · cases h
  next s' hchecked =>
  cases h
  have hgiven : GivenFor fs m.state absolute inode := by
    split at hinode
    · exact openTemporary_given (by rw [hinode])
    · exact openNamed_given (by rw [hinode])
  exact ⟨not_open_nextFd _, ⟨absolute, _, hpath, .inode hnull htty hconsole hgiven, allocFd_acts ..⟩,
    fun d hd => allocFd_denotes (m.setState s') inode absolute hd⟩

/-- No descriptor that was not open denotes the console or the null device. -/
theorem not_opensFresh_of_device {m : Machine fs} {absolute : Except Int Str} {fd : Nat} {path : Str}
    (hpath : absolute = .ok path) (hdevice : path = devNull ∨ path = devTty ∨ path = devConsole) :
    ¬ OpensFresh m absolute fd m := by
  rintro ⟨hopen, ⟨path', object, hpath', hnames, hacts⟩, -⟩
  obtain rfl : path = path' := Except.ok.inj (hpath.symm.trans hpath')
  have hnone : ¬ m.ActsOn fd .console := by
    rintro ⟨hread, -⟩
    obtain ⟨hlow, hused⟩ := not_or.1 hopen
    obtain ⟨hfile, hstdio, hsocket⟩ := Table.used_eq_false_iff.1 (by simpa using hused)
    simp [Table.readTarget, Table.stdioTarget, hfile, hstdio, hsocket, hlow] at hread
  cases hnames with
  | null => exact hacts
  | tty => exact hnone hacts
  | console => exact hnone hacts
  | inode hnull htty hconsole h =>
    rcases hdevice with h | h | h
    · exact hnull h
    · exact htty h
    · exact hconsole h

/-- **Every open gives a fresh descriptor for the named object, but for the three device paths**, in every state of a
process and for every path, flags and mode. -/
theorem openat_fresh_iff (arch : Arch) (m : Machine fs) (dirfd : Nat) (path : Option Str) (flags mode : Nat) :
    (∀ fd m', sysOpenat arch m dirfd path flags mode = (.ok fd, m') →
      OpensFresh m (openPath m dirfd path flags) fd m') ↔
    ∀ absolute, openPath m dirfd path flags = .ok absolute →
      absolute ≠ devNull ∧ absolute ≠ devTty ∧ absolute ≠ devConsole := by
  constructor
  · intro hfresh absolute hpath
    by_contra hdevice
    have hdev : absolute = devNull ∨ absolute = devTty ∨ absolute = devConsole := by
      simpa only [not_and_or, not_not] using hdevice
    -- a number comes back and nothing changes
    obtain ⟨fd, hcall⟩ : ∃ fd, sysOpenat arch m dirfd path flags mode = (.ok fd, m) := by
      simp only [sysOpenat, hpath]
      by_cases hnull : absolute = devNull
      · exact ⟨3, if_pos hnull⟩
      · exact ⟨_, (if_neg hnull).trans (if_pos (hdev.resolve_left hnull))⟩
    exact not_opensFresh_of_device hpath hdev (hfresh fd m hcall)
  · intro hok fd m' h
    cases hpath : openPath m dirfd path flags with
    | error e =>
      simp only [sysOpenat, hpath] at h
      cases h
    | ok absolute =>
      obtain ⟨hnull, htty, hconsole⟩ := hok absolute hpath
      exact hpath ▸ opensFresh_of_named hpath hnull htty hconsole h

end Open

/-- A filesystem with nothing in it. -/
def noFiles : FileSystem where
  State := Unit
  INode := Unit
  resolve := fun _ _ => .error .notFound
  create := fun s _ _ _ _ => (.error .readOnly, s)
  lookup := fun _ _ _ => .error .notFound
  truncate := fun s _ _ => (.error .readOnly, s)
  getattr := fun _ _ => .error .notFound

/-- A process with no descriptors of its own. -/
def newMachine : Machine noFiles where
  table := .empty
  entries := []
  cwd := ['/']
  state := ()
  shared := by simp [Table.empty]

/-- `/dev/null` comes back as descriptor 3, which reads and writes do not know. -/
theorem dev_null_not_opened :
    ¬ ∀ fd m', sysOpenat .riscv64 newMachine 0 (some devNull) 0 0 = (.ok fd, m') →
      OpensFresh newMachine (openPath newMachine 0 (some devNull) 0) fd m' := by
  intro h
  have hpath : openPath newMachine 0 (some devNull) 0 = .ok devNull := by decide +kernel
  have hcall : sysOpenat .riscv64 newMachine 0 (some devNull) 0 0 = (.ok 3, newMachine) := by
    simp only [sysOpenat, hpath]
    exact if_pos trivial
  exact not_opensFresh_of_device hpath (.inl rfl) (h 3 newMachine hcall)

end Koros.Fd
