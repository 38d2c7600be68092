import Koros.Lib.Runs
import Koros.Vfs.Types
import Std.Data.TreeMap.Lemmas

/-!
# The in-memory filesystem

`kor-ramfs/src/lib.rs`: inodes in memory that hold their entries in a map and point back to their parent. A node is
named by a number, which stands for its allocation; numbers are not used again, so a handle to a removed directory
stays a handle to that directory. What is left out is the content of files and symbolic links and the metadata: no
call on directories reads them.
-/
set_option autoImplicit false

namespace Koros.Ram

open Koros.Lib Koros.Vfs

/-! ## Inodes -/

structure Node where
  fileType : FileType
  children : Std.TreeMap Str Nat
  parent : Option Nat

/-- `RamINode::new_dir`. -/
def Node.newDir (parent : Option Nat) : Node := ⟨.directory, ∅, parent⟩

/-- `RamINode::new_file`. -/
def Node.newFile (parent : Nat) : Node := ⟨.regular, ∅, some parent⟩

/-- `RamINode::new_symlink`. -/
def Node.newSymlink (parent : Nat) : Node := ⟨.symlink, ∅, some parent⟩

def Node.isDir (n : Node) : Bool := n.fileType = .directory

structure RamFs where
  nodes : Nat → Option Node
  /-- The number of the next node. -/
  next : Nat

namespace RamFs

def root : Nat := 0

/-- `RamFs::new`. -/
def new : RamFs := ⟨fun i => if i = root then some (.newDir none) else none, 1⟩

def isDir (f : RamFs) (d : Nat) : Bool := (f.nodes d).any Node.isDir

/-- The node that a directory holds under a name. -/
def entry (f : RamFs) (d : Nat) (name : Str) : Option Nat := (f.nodes d).bind fun n => n.children[name]?

def update (f : RamFs) (d : Nat) (g : Node → Node) : RamFs :=
  { f with nodes := Function.update f.nodes d ((f.nodes d).map g) }

/-- The node of a handle that is a directory. -/
def dirNode (f : RamFs) (d : Nat) : Except FsError Node :=
  match f.nodes d with
  | some n => if n.isDir then .ok n else .error .notDirectory
  | none => .error .ioError

/-! ## Calls -/

def lookup (f : RamFs) (d : Nat) (name : Str) : Except FsError Nat := do
  let n ← f.dirNode d
  if name = ['.'] then return d
  else if name = ['.', '.'] then return n.parent.getD d
  else
    match n.children[name]? with
    | some c => return c
    | none => throw .notFound

/-- The common part of `create`, `mkdir` and `symlink`: a new node under a name that is free. -/
def enter (f : RamFs) (d : Nat) (name : Str) (child : Except FsError Node) : Except FsError (RamFs × Nat) := do
  let n ← f.dirNode d
  if n.children.contains name then throw .alreadyExists
  else
    let child ← child
    let f := f.update d fun n => { n with children := n.children.insert name f.next }
    return (⟨Function.update f.nodes f.next (some child), f.next + 1⟩, f.next)

def create (f : RamFs) (d : Nat) (name : Str) (fileType : FileType) : Except FsError (RamFs × Nat) :=
  f.enter d name
    (match fileType with
     | .regular => .ok (.newFile d)
     | .directory => .ok (.newDir (some d))
     | _ => .error .invalidInput)

def mkdir (f : RamFs) (d : Nat) (name : Str) : Except FsError (RamFs × Nat) := f.enter d name (.ok (.newDir (some d)))

def symlink (f : RamFs) (d : Nat) (name : Str) : Except FsError (RamFs × Nat) := f.enter d name (.ok (.newSymlink d))

def link (f : RamFs) (d : Nat) (name : Str) (target : Nat) : Except FsError RamFs := do
  let n ← f.dirNode d
  if f.isDir target then throw .isDirectory
  else if (f.nodes target).isNone then throw .ioError
  else if n.children.contains name then throw .alreadyExists
  else return f.update d fun n => { n with children := n.children.insert name target }

def unlink (f : RamFs) (d : Nat) (name : Str) : Except FsError RamFs := do
  let n ← f.dirNode d
  match n.children[name]? with
  | none => throw .notFound
  | some c =>
    if f.isDir c then throw .isDirectory
    else return f.update d fun n => { n with children := n.children.erase name }

/-- `!child.children.lock().is_empty()`. -/
def occupied (f : RamFs) (d : Nat) : Bool := (f.nodes d).any fun n => !n.children.isEmpty

def rmdir (f : RamFs) (d : Nat) (name : Str) : Except FsError RamFs := do
  let n ← f.dirNode d
  match n.children[name]? with
  | none => throw .notFound
  | some c =>
    if !f.isDir c then throw .notDirectory
    else if f.occupied c then throw .notEmpty
    else return f.update d fun n => { n with children := n.children.erase name }

/-- The entry moves; the two directories may be one. -/
def moveEntry (f : RamFs) (d : Nat) (oldName : Str) (q : Nat) (newName : Str) (c : Nat) : RamFs :=
  if d ≠ q then
    (f.update q fun n => { n with children := n.children.insert newName c }).update d fun n =>
      { n with children := n.children.erase oldName }
  else f.update d fun n => { n with children := (n.children.erase oldName).insert newName c }

def rename (f : RamFs) (d : Nat) (oldName : Str) (q : Nat) (newName : Str) : Except FsError RamFs := do
  let n ← f.dirNode d
  let m ← f.dirNode q
  match n.children[oldName]? with
  | none => throw .notFound
  | some c =>
    if (m.children[newName]?).any fun e => f.isDir e && f.occupied e then throw .notEmpty
    else
      let moved := f.moveEntry d oldName q newName c
      return if f.isDir c then moved.update c fun n => { n with parent := some q } else moved

end RamFs

/-! ## Runs -/

inductive Call where
  | create (d : Nat) (name : Str) (fileType : FileType)
  | mkdir (d : Nat) (name : Str)
  | symlink (d : Nat) (name : Str)
  | link (d : Nat) (name : Str) (target : Nat)
  | unlink (d : Nat) (name : Str)
  | rmdir (d : Nat) (name : Str)
  | rename (d : Nat) (oldName : Str) (q : Nat) (newName : Str)
deriving DecidableEq, Repr

/-- The directories that the call is made on. -/
def Call.handles : Call → List Nat
  | .create d _ _ | .mkdir d _ | .symlink d _ | .link d _ _ | .unlink d _ | .rmdir d _ => [d]
  | .rename d _ q _ => [d, q]

structure State where
  fs : RamFs
  /-- The directories that `rmdir` removed or `rename` replaced. -/
  gone : List Nat

namespace State

def boot : State := ⟨.new, []⟩

/-- The filesystem after a call; a call that fails changes nothing. -/
def apply (s : State) : Call → RamFs
  | .create d name fileType => ((s.fs.create d name fileType).toOption.map Prod.fst).getD s.fs
  | .mkdir d name => ((s.fs.mkdir d name).toOption.map Prod.fst).getD s.fs
  | .symlink d name => ((s.fs.symlink d name).toOption.map Prod.fst).getD s.fs
  | .link d name target => (s.fs.link d name target).toOption.getD s.fs
  | .unlink d name => (s.fs.unlink d name).toOption.getD s.fs
  | .rmdir d name => (s.fs.rmdir d name).toOption.getD s.fs
  | .rename d oldName q newName => (s.fs.rename d oldName q newName).toOption.getD s.fs

/-- The directory that a call removes or replaces. -/
def removes (s : State) : Call → Option Nat
  | .rmdir d name => if (s.fs.rmdir d name).isOk then s.fs.entry d name else none
  | .rename d oldName q newName =>
    if (s.fs.rename d oldName q newName).isOk then
      (s.fs.entry q newName).filter fun e => s.fs.isDir e && s.fs.entry d oldName != some e
    else none
  | _ => none

/-- The call looks into a directory whose lock it holds: one that holds itself. It never returns. -/
def hangs (s : State) : Call → Bool
  | .rmdir d name => s.fs.entry d name = some d
  | .rename d oldName q newName => (s.fs.entry d oldName).isSome && s.fs.entry q newName = some q
  | _ => false

def step (s : State) (c : Call) : Option State :=
  if s.hangs c then none else some ⟨s.apply c, (s.removes c).toList ++ s.gone⟩

end State

end Koros.Ram
