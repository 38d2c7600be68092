import Koros.Vfs.Symlinks
import Std.Data.TreeMap.Lemmas

/-!
# The mount table

`kor-fs/src/mount.rs`: filesystems mounted at paths, which are kept as text, and the resolution of
a path in two steps: the mount is the one whose path is the longest prefix of the text, and the rest of the path is walked
in its filesystem. A filesystem is a tree whose nodes are named by the components that lead to them; an inode is a mount
path and a node.
-/
set_option autoImplicit false

namespace Koros.Vfs

/-! ## Trees -/

structure Tree where
  /-- The file type of the node that the components lead to. -/
  kind : List Str → Option FileType
  /-- The text of a symbolic link. -/
  target : List Str → Str
  root_dir : kind [] = some .directory

namespace Tree

def lookup (t : Tree) (node : List Str) (name : Str) : Except FsError (List Str) :=
  match t.kind node with
  | some .directory =>
    if name = ['.'] then .ok node
    else if name = ['.', '.'] then .ok node.dropLast
    else if (t.kind (node ++ [name])).isSome then .ok (node ++ [name])
    else .error .notFound
  | some _ => .error .notDirectory
  | none => .error .ioError

/-- The nodes as inodes. -/
def graph (t : Tree) : Symlinks.Graph (List Str) where
  lookup := t.lookup
  isSymlink node := .ok (t.kind node = some .symlink)
  readlink node := .ok (t.target node)

/-- `resolve_path` from the root of the filesystem. -/
def resolvePath (t : Tree) (path : Str) : Except FsError (List Str) := (Symlinks.resolvePath t.graph [] path).result

end Tree

/-! ## The table -/

abbrev MountTable := Std.TreeMap Str Tree

def trimEnd (s : Str) : Str := (s.reverse.dropWhile (· = '/')).reverse

def canonicalizeMountPath (path : Str) : Str :=
  let trimmed := trimEnd path
  if trimmed = [] then ['/'] else if trimmed.head? = some '/' then trimmed else '/' :: trimmed

def isMountPrefix (mountPath canonical : Str) : Bool :=
  canonical = mountPath ||
    mountPath.isPrefixOf canonical &&
      (mountPath.getLast? = some '/' || (canonical.drop mountPath.length).head? = some '/')

namespace MountTable

/-- `MountTable::mount`. -/
def mount (m : MountTable) (path : Str) (fs : Tree) : Except FsError MountTable :=
  if m.contains (canonicalizeMountPath path) then .error .alreadyExists
  else .ok (m.insert (canonicalizeMountPath path) fs)

/-- `MountTable::unmount`. -/
def unmount (m : MountTable) (path : Str) : Except FsError MountTable :=
  if m.contains (canonicalizeMountPath path) then .ok (m.erase (canonicalizeMountPath path)) else .error .notFound

/-- The search behind `resolve_mount` and `longest_prefix`: the last key that is not above the path and is a prefix. -/
def findPrefix (m : MountTable) (path : Str) : Option (Str × Tree) :=
  let canonical := canonicalizeMountPath path
  (m.toList.filter fun e => compare e.1 canonical ≠ .gt).reverse.find? fun e => isMountPrefix e.1 canonical

def resolveMount (m : MountTable) (path : Str) : Option Tree := (m.findPrefix path).map Prod.snd

def longestPrefix (m : MountTable) (path : Str) : Option Str := (m.findPrefix path).map Prod.fst

/-- What is left of the path behind the mount path. -/
def relative (path mountPath : Str) : Str :=
  let canonical := canonicalizeMountPath path
  (if mountPath.isPrefixOf canonical then canonical.drop mountPath.length else canonical).dropWhile (· = '/')

def resolve (m : MountTable) (path : Str) : Except FsError (Str × List Str) :=
  match m.resolveMount path with
  | none => .error .notFound
  | some fs =>
    let mountPath := (m.longestPrefix path).getD ['/']
    (fs.resolvePath (relative path mountPath)).map fun node => (mountPath, node)

end MountTable

end Koros.Vfs
