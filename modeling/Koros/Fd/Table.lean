import Koros.Lib.Checked
import Koros.Lib.Maps
import Mathlib.Algebra.Ring.Nat

/-!
# The descriptor table of a process

A process of korix has four maps from descriptors: open files, copies of the standard streams, sockets, and the sockets
that were opened as IPv6 (`ProcessState` of `korix/src/sched/mod.rs`). `next_fd`, `sys_dup`, `sys_dup2`, `sys_fcntl` and
`sys_close` of `korix/src/syscall/mod.rs` edit them. A file is a shared `Arc<Mutex<FileEntry>>`, here its number; a
descriptor that a call returns is a number, and an error is the code that it returns instead.

- `nextFd_spec`: the least descriptor from 3 on that is in none of the maps;
- `entry_install`, `entry_remove`: what an edit does to the entry of each descriptor;
- `Table.WellFormed`: the maps share no descriptor, and an IPv6 mark stands at a socket. Every call keeps it.
-/
set_option autoImplicit false

namespace Koros.Fd

open Koros.Lib

structure Table where
  files : Std.TreeMap Nat Nat
  stdio : Std.TreeMap Nat Nat
  sockets : Std.TreeMap Nat Nat
  ipv6Fds : Std.TreeMap Nat Unit

/-- What a descriptor stands for when it is duplicated. -/
inductive Object where
  | file (file : Nat)
  | stdio (target : Nat)
  | socket (id : Nat) (ipv6 : Bool)
deriving DecidableEq, Repr

def ebadf : Int := -9

def emfile : Int := -24

def einval : Int := -22

namespace Table

def empty : Table := ⟨∅, ∅, ∅, ∅⟩

/-- The test of the search loops. -/
def used (t : Table) (fd : Nat) : Bool := t.files.contains fd || t.stdio.contains fd || t.sockets.contains fd

/-- How many rounds a search can take. -/
def size (t : Table) : Nat := t.files.size + t.stdio.size + t.sockets.size

def nextFd (t : Table) : Nat := firstUnused t.used t.size 3

/-- `files.get`, then `stdio.get` with the first three descriptors their own targets, then `sockets.get`. -/
def object (t : Table) (fd : Nat) : Option Object :=
  match t.files[fd]? with
  | some file => some (.file file)
  | none =>
    match if fd ≤ 2 then some fd else t.stdio[fd]? with
    | some target => some (.stdio target)
    | none => (t.sockets[fd]?).map fun id => .socket id (t.ipv6Fds.contains fd)

def install (t : Table) (fd : Nat) : Object → Table
  | .file file => { t with files := t.files.insert fd file }
  | .stdio target => { t with stdio := t.stdio.insert fd target }
  | .socket id ipv6 =>
    { t with
      sockets := t.sockets.insert fd id
      ipv6Fds := if ipv6 then t.ipv6Fds.insert fd () else t.ipv6Fds }

def remove (t : Table) (fd : Nat) : Table :=
  ⟨t.files.erase fd, t.stdio.erase fd, t.sockets.erase fd, t.ipv6Fds.erase fd⟩

def dup (t : Table) (fd : Nat) : Except Int Nat × Table :=
  match t.object fd with
  | none => (.error ebadf, t)
  | some object => (.ok t.nextFd, t.install t.nextFd object)

def dup2 (t : Table) (fd newfd : Nat) : Except Int Nat × Table :=
  match t.object fd with
  | none => (.error ebadf, t)
  | some object => if fd = newfd then (.ok newfd, t) else (.ok newfd, (t.remove newfd).install newfd object)

/-- `F_DUPFD` and `F_DUPFD_CLOEXEC`. -/
def isDupFd (command : Nat) : Bool := command == 0 || command == 1030

def fcntl (t : Table) (fd command argument : Nat) : Except Int Nat × Table :=
  match t.object fd with
  | none => (.error ebadf, t)
  | some object =>
    if isDupFd command then
      match firstUnusedBelow t.used usizeMax t.size (max argument 3) with
      | none => (.error emfile, t)
      | some newfd => (.ok newfd, t.install newfd object)
    -- `F_GETFD`, `F_SETFD`, `F_GETFL` and `F_SETFL`
    else if 1 ≤ command ∧ command ≤ 4 then (.ok 0, t)
    else (.error einval, t)

/-- What `sys_close` found: a socket is handed to `net::close`, whose answer decides the result. -/
inductive Closed where
  | done
  | bad
  | socket (id : Nat)
deriving DecidableEq, Repr

def close (t : Table) (fd : Nat) : Closed × Table :=
  if fd ≤ 2 then (.done, t)
  else
    let t := { t with ipv6Fds := t.ipv6Fds.erase fd }
    match t.sockets[fd]? with
    | some id => (.socket id, { t with sockets := t.sockets.erase fd })
    | none =>
      if t.files.contains fd then (.done, { t with files := t.files.erase fd })
      else if t.stdio.contains fd then (.done, { t with stdio := t.stdio.erase fd })
      else (.bad, t)

/-! ## The free descriptors -/

theorem used_eq_false_iff {t : Table} {fd : Nat} :
    t.used fd = false ↔ t.files[fd]? = none ∧ t.stdio[fd]? = none ∧ t.sockets[fd]? = none := by
  rw [used, Bool.or_eq_false_iff, Bool.or_eq_false_iff, not_contains_iff, not_contains_iff, not_contains_iff, and_assoc]

/-- The descriptors in use. -/
def keys (t : Table) : List Nat := t.files.keys ++ t.stdio.keys ++ t.sockets.keys

theorem mem_keys {t : Table} {fd : Nat} (h : t.used fd = true) : fd ∈ t.keys := by
  simp only [keys, List.mem_append, Std.TreeMap.mem_keys, Std.TreeMap.mem_iff_contains]
  simpa [used, Bool.or_eq_true] using h

theorem length_keys (t : Table) : t.keys.length = t.size := by
  simp [keys, size, Nat.add_assoc]

/-- `fd` is the least descriptor from `least` on that is not in use. -/
def LeastUnused (t : Table) (least fd : Nat) : Prop :=
  least ≤ fd ∧ t.used fd = false ∧ ∀ m, least ≤ m → m < fd → t.used m = true

theorem firstUnused_least (t : Table) (least : Nat) : t.LeastUnused least (firstUnused t.used t.size least) :=
  firstUnused_spec (fun _ => mem_keys) (Nat.le_of_eq t.length_keys) least

theorem nextFd_spec (t : Table) : t.LeastUnused 3 t.nextFd := t.firstUnused_least 3

/-! ## Entries -/

/-- All that a table holds for a descriptor. -/
structure Entry where
  file : Option Nat
  stdio : Option Nat
  socket : Option Nat
  ipv6 : Option Unit
deriving DecidableEq

def entry (t : Table) (fd : Nat) : Entry := ⟨t.files[fd]?, t.stdio[fd]?, t.sockets[fd]?, t.ipv6Fds[fd]?⟩

theorem entry_install {t : Table} {fd d : Nat} (object : Object) (h : d ≠ fd) :
    (t.install fd object).entry d = t.entry d := by
  cases object with
  | file file => simp [entry, install, h]
  | stdio target => simp [entry, install, h]
  | socket id ipv6 => cases ipv6 <;> simp [entry, install, h]

theorem entry_remove {t : Table} {fd d : Nat} (h : d ≠ fd) : (t.remove fd).entry d = t.entry d := by
  simp [entry, remove, h]

theorem entry_remove_self (t : Table) (fd : Nat) : (t.remove fd).entry fd = ⟨none, none, none, none⟩ := by
  simp [entry, remove]

theorem entry_close {t : Table} {fd d : Nat} (h : d ≠ fd) : (t.close fd).2.entry d = t.entry d := by
  unfold close
  split
  · rfl
  dsimp only
  split
  · simp [entry, h]
  split
  · simp [entry, h]
  split <;> simp [entry, h]

/-! ## Well-formed tables -/

/-- A descriptor is in one of the maps, and an IPv6 mark stands at a socket. -/
structure Entry.WellFormed (e : Entry) : Prop where
  files_stdio : e.file = none ∨ e.stdio = none
  files_sockets : e.file = none ∨ e.socket = none
  stdio_sockets : e.stdio = none ∨ e.socket = none
  ipv6 : e.socket = none → e.ipv6 = none

/-- The maps share no descriptor, and an IPv6 mark stands at a socket. -/
def WellFormed (t : Table) : Prop := ∀ fd, (t.entry fd).WellFormed

theorem wellFormed_empty : empty.WellFormed := by
  intro fd
  constructor <;> simp [entry, empty]

/-- One entry has changed. -/
theorem WellFormed.of_entry {t t' : Table} (h : t.WellFormed) {fd : Nat} (hother : ∀ d, d ≠ fd → t'.entry d = t.entry d)
    (hself : (t'.entry fd).WellFormed) : t'.WellFormed := by
  intro d
  by_cases hd : d = fd
  · exact hd ▸ hself
  · rw [hother d hd]
    exact h d

theorem WellFormed.remove {t : Table} (h : t.WellFormed) (fd : Nat) : (t.remove fd).WellFormed := by
  refine h.of_entry (fun d hd => entry_remove hd) ?_
  rw [entry_remove_self]
  constructor <;> simp

/-- A new entry at a descriptor that is not in use. -/
theorem WellFormed.install {t : Table} (h : t.WellFormed) {fd : Nat} (hfd : t.used fd = false) (object : Object) :
    (t.install fd object).WellFormed := by
  obtain ⟨hfiles, hstdio, hsockets⟩ := used_eq_false_iff.1 hfd
  have hipv6 : t.ipv6Fds[fd]? = none := (h fd).ipv6 hsockets
  refine h.of_entry (fun d hd => entry_install object hd) ?_
  cases object with
  | file file => constructor <;> simp [entry, Table.install, hstdio, hsockets, hipv6]
  | stdio target => constructor <;> simp [entry, Table.install, hfiles, hsockets, hipv6]
  | socket id ipv6 => constructor <;> simp [entry, Table.install, hfiles, hstdio]

theorem WellFormed.close {t : Table} (h : t.WellFormed) (fd : Nat) : (t.close fd).2.WellFormed := by
  refine h.of_entry (fun d hd => entry_close hd) ?_
  have h₁ := (h fd).files_stdio
  unfold Table.close
  split
  · exact h fd
  dsimp only
  split
  · exact ⟨h₁, .inr (by simp [entry]), .inr (by simp [entry]), fun _ => by simp [entry]⟩
  next hs =>
  split
  · constructor <;> simp [entry, hs]
  split
  · constructor <;> simp [entry, hs]
  · exact ⟨h₁, .inr hs, .inr hs, fun _ => by simp [entry]⟩

theorem WellFormed.dup2 {t : Table} (h : t.WellFormed) (fd newfd : Nat) : (t.dup2 fd newfd).2.WellFormed := by
  unfold Table.dup2
  split
  · exact h
  split
  · exact h
  · refine (h.remove newfd).install ?_ _
    have hentry := t.entry_remove_self newfd
    rw [entry, Entry.mk.injEq] at hentry
    exact used_eq_false_iff.2 ⟨hentry.1, hentry.2.1, hentry.2.2.1⟩

/-- The search of `F_DUPFD` finds the least free descriptor, or none below the largest `usize`. -/
theorem least_of_below {t : Table} {least newfd : Nat}
    (h : firstUnusedBelow t.used usizeMax t.size least = some newfd) : t.LeastUnused least newfd := by
  rw [eq_firstUnused_of_below h]
  exact t.firstUnused_least least

end Table

end Koros.Fd
