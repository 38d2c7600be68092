/-!
# The types of the VFS interface

The errors, file types and names that pass between the system calls, the mount table and the filesystems (`kor/src/vfs.rs`).
A string is the list of its characters.
-/
set_option autoImplicit false

namespace Koros.Vfs

abbrev Str := List Char

inductive FsError where
  | notFound
  | permissionDenied
  | alreadyExists
  | notDirectory
  | isDirectory
  | invalidInput
  | ioError
  | noSpace
  | notEmpty
  | unsupported
  | readOnly
  | tooManyLinks
  | crossDevice
deriving DecidableEq, Repr

inductive FileType where
  | regular
  | directory
  | symlink
  | blockDevice
  | charDevice
  | fifo
  | socket
deriving DecidableEq, Repr

end Koros.Vfs
