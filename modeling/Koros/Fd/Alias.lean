import Koros.Fd.Open
import Koros.Fd.Sockets

/-!
# Copies of a descriptor

`sys_dup`, `sys_dup2` and the `F_DUPFD` commands of `sys_fcntl` copy one entry of the maps. `sys_read`, `sys_write` and
`sys_lseek` look at the maps in orders of their own: the first three descriptors are standard streams whether or not the
maps have an entry for them, and `sys_read` believes that of descriptor 0 before it looks for a file. `sys_close` leaves
the first three alone, and hands a socket to `net::close` however many descriptors it has.

- `duplicate_entries`: what a copy does to the entries;
- `close_result`, `close_entry`, `sysClose_socketState`: what a close does to the calls and to the sockets;
- **`duplicate_aliased_iff`**: the copies for which calls on the two descriptors act on one object and a close of the
  new one leaves the old one alone.
-/
set_option autoImplicit false

namespace Koros.Fd

open Koros.Lib

/-! ## What the calls act on -/

/-- What `sys_read`, `sys_write` and `sys_lseek` act on. A file is a shared entry with its offset. -/
structure Acts where
  read : Option Target
  write : Option Target
  seek : Option Nat
deriving DecidableEq

def Table.acts (t : Table) (fd : Nat) : Acts := ⟨t.readTarget fd, t.writeTarget fd, t.files[fd]?⟩

section Alias

variable {A : SocketApi}

/-- A read or a write with the target fails: there is none, or it is a socket that the network stack does not have. -/
def World.Refuses (w : World A) : Option Target → Prop
  | none => True
  | some (.socket id) => w.socketState id = none
  | some .console => False
  | some (.file _) => False

/-- The calls that copy descriptor `fd`. -/
def Call.Duplicates (fd : Nat) : Call → Prop
  | .dup d => d = fd
  | .dup2 d _ => d = fd
  | .fcntl d command _ => d = fd ∧ Table.isDupFd command = true
  | _ => False

/-- `b` was closed between the two states: calls on it fail, and those on `a` act on what they acted on, a socket with
the state it had. -/
structure Apart (w : World A) (t : Table) (w' : World A) (t' : Table) (a b : Nat) : Prop where
  read : w'.Refuses (t'.readTarget b)
  write : w'.Refuses (t'.writeTarget b)
  acts : a ≠ b → t'.acts a = t.acts a
  state : a ≠ b → ∀ id, t.sockets[a]? = some id → w'.socketState id = w.socketState id

/-- The descriptors stand for one object, and a close of `b` takes `b` alone. -/
def Aliased (w : World A) (pid a b : Nat) : Prop :=
  ∃ p, w.process pid = some p ∧ p.table.acts b = p.table.acts a ∧
    ∃ p', (w.call pid p (.close b)).2.process pid = some p' ∧ Apart w p.table (w.call pid p (.close b)).2 p'.table a b

/-- The condition on a copy of `a` at `b`. -/
def Separable (w : World A) (t : Table) (a b : Nat) : Prop :=
  match t.sockets[a]? with
  | none => 2 < b ∧ (a = 0 → t.files[0]? = none)
  | some id => 2 < a ∧ (a = b ∨ w.socketState id = none) ∨ a = b ∧ w.socketState id = none

/-! ## Copies -/

/-- The entry that `install` makes at a free descriptor. -/
def Object.entry : Object → Table.Entry
  | .file number => ⟨some number, none, none, none⟩
  | .stdio target => ⟨none, some target, none, none⟩
  | .socket id ipv6 => ⟨none, none, some id, if ipv6 then some () else none⟩

/-- The table after a copy of `a` at `b`. -/
def Table.CopyOf (t t' : Table) (a b : Nat) : Prop :=
  a = b ∧ t' = t ∨
    a ≠ b ∧ ∃ object, t.object a = some object ∧ t'.entry b = object.entry ∧ ∀ d, d ≠ b → t'.entry d = t.entry d

theorem entry_install_self {t : Table} {fd : Nat} (h : t.entry fd = ⟨none, none, none, none⟩) (object : Object) :
    (t.install fd object).entry fd = object.entry := by
  simp only [Table.entry, Table.Entry.mk.injEq] at h
  obtain ⟨hfile, hstdio, hsocket, hipv6⟩ := h
  cases object with
  | file file => simp [Table.entry, Table.install, Object.entry, hstdio, hsocket, hipv6]
  | stdio target => simp [Table.entry, Table.install, Object.entry, hfile, hsocket, hipv6]
  | socket id ipv6 => cases ipv6 <;> simp [Table.entry, Table.install, Object.entry, hfile, hstdio, hipv6]

/-- A copy at a free descriptor from 3 on. -/
theorem copyOf_install {t : Table} (ht : t.WellFormed) {a b : Nat} {object : Object} (hobject : t.object a = some object)
    (hfree : t.used b = false) (hlow : 3 ≤ b) : t.CopyOf (t.install b object) a b := by
  obtain ⟨hfile, hstdio, hsocket⟩ := Table.used_eq_false_iff.1 hfree
  have hne : a ≠ b := by
    rintro rfl
    simp [Table.object, hfile, hstdio, hsocket, show ¬ a ≤ 2 by omega] at hobject
  have hentry : t.entry b = ⟨none, none, none, none⟩ := by
    have hipv6 : t.ipv6Fds[b]? = none := (ht b).ipv6 hsocket
    rw [Table.entry, hfile, hstdio, hsocket, hipv6]
  exact .inr ⟨hne, object, hobject, entry_install_self hentry object, fun d hd => Table.entry_install object hd⟩

/-- **What a copy does to the entries.** -/
theorem duplicate_entries {w : World A} {pid : Nat} {p : Process} {c : Call} {a b : Nat} (ht : p.table.WellFormed)
    (hc : c.Duplicates a) (hok : (w.call pid p c).1 = .ok b) :
    ∃ t', (w.call pid p c).2 = w.setTable pid p t' ∧ p.table.CopyOf t' a b := by
  cases c with
  | dup d =>
    obtain rfl : d = a := hc
    refine ⟨(p.table.dup d).2, rfl, ?_⟩
    simp only [World.call, Table.dup] at hok ⊢
    split at hok
    · cases hok
    next object hobject =>
    obtain rfl : p.table.nextFd = b := Except.ok.inj hok
    exact copyOf_install ht hobject p.table.nextFd_spec.2.1 p.table.nextFd_spec.1
  | dup2 d newfd =>
    obtain rfl : d = a := hc
    refine ⟨(p.table.dup2 d newfd).2, rfl, ?_⟩
    simp only [World.call, Table.dup2] at hok ⊢
    split at hok
    · cases hok
    next object hobject =>
    split at hok
    · next he =>
      obtain rfl : newfd = b := Except.ok.inj hok
      rw [if_pos he]
      exact .inl ⟨he, rfl⟩
    · next hne =>
      obtain rfl : newfd = b := Except.ok.inj hok
      rw [if_neg hne]
      refine .inr ⟨hne, object, hobject, entry_install_self (Table.entry_remove_self _ _) object, fun e he => ?_⟩
      rw [Table.entry_install object he, Table.entry_remove he]
  | fcntl d command argument =>
    obtain ⟨rfl, hcommand⟩ : d = a ∧ Table.isDupFd command = true := hc
    refine ⟨(p.table.fcntl d command argument).2, rfl, ?_⟩
    simp only [World.call, Table.fcntl, hcommand, if_true] at hok ⊢
    split at hok
    · cases hok
    next object hobject =>
    split at hok
    · cases hok
    next newfd hfd =>
    obtain rfl : newfd = b := Except.ok.inj hok
    have hleast := Table.least_of_below hfd
    exact copyOf_install ht hobject hleast.2.1 (Nat.le_trans (Nat.le_max_right _ _) hleast.1)
  | openat opened => exact hc.elim
  | socket domain type => exact hc.elim
  | close d => exact hc.elim
  | clone => exact hc.elim
  | exit => exact hc.elim

/-! ## The lookups, by the entry -/

theorem acts_congr {t t' : Table} {fd : Nat} (h : t'.entry fd = t.entry fd) : t'.acts fd = t.acts fd := by
  have hfile : t'.files[fd]? = t.files[fd]? := congrArg Table.Entry.file h
  rw [Table.acts, Table.acts, (readTarget_congr h).1, (readTarget_congr h).2, hfile]

/-- A descriptor with no entry, from 3 on. -/
theorem acts_of_empty {t : Table} {fd : Nat} (hlow : 2 < fd) (h : t.entry fd = ⟨none, none, none, none⟩) :
    t.acts fd = ⟨none, none, none⟩ := by
  simp only [Table.entry, Table.Entry.mk.injEq] at h
  obtain ⟨hfile, hstdio, hsocket, -⟩ := h
  simp [Table.acts, Table.readTarget, Table.writeTarget, Table.stdioTarget, hfile, hstdio, hsocket,
    show ¬ fd ≤ 2 by omega]

/-- A descriptor with a socket. -/
theorem acts_of_socket {t : Table} (ht : t.WellFormed) {fd id : Nat} (h : t.sockets[fd]? = some id) :
    t.acts fd = ⟨some (.socket id), some (.socket id), none⟩ := by
  have hfile : t.files[fd]? = none := by
    refine (ht fd).files_sockets.resolve_right fun hnone => ?_
    exact absurd (h.symm.trans hnone) nofun
  simp [Table.acts, Table.readTarget, Table.writeTarget, h, hfile]

/-- One of the first three descriptors, without a socket: reads, or writes, find an object. -/
theorem not_refuses_of_low {w : World A} {t : Table} {fd : Nat} (hlow : fd ≤ 2) (h : t.sockets[fd]? = none) :
    ¬ (w.Refuses (t.readTarget fd) ∧ w.Refuses (t.writeTarget fd)) := by
  rintro ⟨hread, hwrite⟩
  by_cases hzero : fd = 0
  · subst hzero
    simp [Table.readTarget, h, Table.stdioTarget, World.Refuses] at hread
  · have htarget : t.stdioTarget fd = some 1 ∨ t.stdioTarget fd = some 2 := by
      rw [Table.stdioTarget, if_pos hlow, Option.some.injEq, Option.some.injEq]
      omega
    rw [Table.writeTarget, h] at hwrite
    cases hfile : t.files[fd]? with
    | none => simp [hfile, htarget, World.Refuses] at hwrite
    | some file => simp [hfile, World.Refuses] at hwrite

/-- A copy of what is no socket. -/
theorem acts_copy_iff {t t' : Table} (ht : t.WellFormed) {a b : Nat} {object : Object} (hne : a ≠ b) (hb : 2 < b)
    (hobject : t.object a = some object) (hentry : t'.entry b = object.entry)
    (hother : ∀ d, d ≠ b → t'.entry d = t.entry d) (hsocket : t.sockets[a]? = none) :
    t'.acts b = t'.acts a ↔ (a = 0 → t.files[0]? = none) := by
  rw [acts_congr (hother a hne)]
  have hb' : ¬ b ≤ 2 := by omega
  unfold Table.object at hobject
  cases hfile : t.files[a]? with
  | some file =>
    rw [hfile] at hobject
    obtain rfl : Object.file file = object := Option.some.inj hobject
    simp only [Table.entry, Object.entry, Table.Entry.mk.injEq] at hentry
    obtain ⟨hfile', hstdio', hsocket', -⟩ := hentry
    have hstdio : t.stdio[a]? = none := (ht a).files_stdio.resolve_left (by simp [Table.entry, hfile])
    have htarget : t.stdioTarget a = some 0 ↔ a = 0 := by
      rw [Table.stdioTarget]
      split
      · rw [Option.some.injEq]
      · next ha =>
        rw [hstdio]
        exact ⟨by simp, fun h => absurd (Nat.le_of_eq h) (by omega)⟩
    have hfile0 : (a = 0 → t.files[0]? = none) ↔ a ≠ 0 := by
      constructor
      · rintro h rfl
        rw [h rfl] at hfile
        cases hfile
      · exact fun h ha => absurd ha h
    rw [hfile0]
    simp only [Table.acts, Table.readTarget, Table.writeTarget, hfile', hsocket', hfile, hsocket, Acts.mk.injEq,
      and_true, htarget]
    rw [Table.stdioTarget, if_neg hb', hstdio']
    by_cases ha : a = 0 <;> simp [ha]
  | none =>
    rw [hfile] at hobject
    have htarget : ∃ target, t.stdioTarget a = some target ∧ object = .stdio target := by
      cases hs : t.stdioTarget a with
      | some target =>
        rw [Table.stdioTarget] at hs
        rw [hs] at hobject
        exact ⟨target, rfl, (Option.some.inj hobject).symm⟩
      | none =>
        rw [Table.stdioTarget] at hs
        rw [hs, hsocket] at hobject
        cases hobject
    obtain ⟨target, htarget, rfl⟩ := htarget
    simp only [Table.entry, Object.entry, Table.Entry.mk.injEq] at hentry
    obtain ⟨hfile', hstdio', hsocket', -⟩ := hentry
    have htarget' : t'.stdioTarget b = some target := by rw [Table.stdioTarget, if_neg hb', hstdio']
    have hzero : a = 0 → t.files[0]? = none := by
      rintro rfl
      exact hfile
    refine iff_of_true ?_ hzero
    simp only [Table.acts, Table.readTarget, Table.writeTarget, hfile', hsocket', hfile, hsocket, htarget, htarget']

/-- A copy of what has a socket: the first three descriptors are copied as standard streams. -/
theorem socket_copy {t : Table} (ht : t.WellFormed) {a id : Nat} {object : Object} (hobject : t.object a = some object)
    (hsocket : t.sockets[a]? = some id) :
    (2 < a → ∃ ipv6, object = .socket id ipv6) ∧ (a ≤ 2 → object = .stdio a) := by
  have hfile : t.files[a]? = none := (ht a).files_sockets.resolve_right (by simp [Table.entry, hsocket])
  have hstdio : t.stdio[a]? = none := (ht a).stdio_sockets.resolve_right (by simp [Table.entry, hsocket])
  unfold Table.object at hobject
  rw [hfile, hstdio, hsocket] at hobject
  constructor
  · intro ha
    rw [if_neg (by omega)] at hobject
    exact ⟨_, (Option.some.inj hobject).symm⟩
  · intro ha
    rw [if_pos ha] at hobject
    exact (Option.some.inj hobject).symm

/-! ## Closing -/

/-- What `sys_close` leaves to be done by `net::close`. -/
theorem close_result (t : Table) (fd : Nat) :
    (fd ≤ 2 ∧ t.close fd = (.done, t)) ∨
    (2 < fd ∧ ∃ id, t.sockets[fd]? = some id ∧ (t.close fd).1 = .socket id) ∨
    (2 < fd ∧ t.sockets[fd]? = none ∧ ((t.close fd).1 = .done ∨ (t.close fd).1 = .bad)) := by
  unfold Table.close
  split
  · next h => exact .inl ⟨h, rfl⟩
  next h =>
  have hlow : 2 < fd := by omega
  dsimp only
  split
  · next id hid => exact .inr (.inl ⟨hlow, id, hid, rfl⟩)
  next hnone =>
  refine .inr (.inr ⟨hlow, hnone, ?_⟩)
  split
  · exact .inl rfl
  split
  · exact .inl rfl
  · exact .inr rfl

/-- From 3 on a close leaves no entry. -/
theorem close_entry {t : Table} (ht : t.WellFormed) {fd : Nat} (hlow : 2 < fd) :
    (t.close fd).2.entry fd = ⟨none, none, none, none⟩ := by
  have hwf := ht fd
  unfold Table.close
  rw [if_neg (by omega)]
  dsimp only
  split
  · next id hid =>
    have hfile : t.files[fd]? = none := hwf.files_sockets.resolve_right (by simp [Table.entry, hid])
    have hstdio : t.stdio[fd]? = none := hwf.stdio_sockets.resolve_right (by simp [Table.entry, hid])
    simp [Table.entry, hfile, hstdio]
  next hsocket =>
  split
  · next hfile =>
    obtain ⟨file, hfile⟩ := (contains_iff _ _).1 hfile
    have hstdio : t.stdio[fd]? = none := hwf.files_stdio.resolve_left (by simp [Table.entry, hfile])
    simp [Table.entry, hsocket, hstdio]
  next hfile =>
  have hfile : t.files[fd]? = none := (not_contains_iff _ _).1 (Bool.not_eq_true _ ▸ hfile)
  split
  · simp [Table.entry, hsocket, hfile]
  next hstdio =>
  have hstdio : t.stdio[fd]? = none := (not_contains_iff _ _).1 (Bool.not_eq_true _ ▸ hstdio)
  simp [Table.entry, hsocket, hfile, hstdio]

/-- The table of the caller after `sys_close`. -/
theorem sysClose_process (w : World A) (pid : Nat) (p : Process) (fd : Nat) :
    (w.call pid p (.close fd)).2.process pid = some { p with table := (p.table.close fd).2 } := by
  simp only [World.call, World.sysClose]
  split
  · next h => rw [World.setTable, World.set_self, h]
  · next h => rw [World.setTable, World.set_self, h]
  · next h => rw [World.setTable, World.set_self, h]

/-- The sockets after `sys_close`. -/
theorem sysClose_socketState (w : World A) (pid : Nat) (p : Process) (fd i : Nat) :
    (w.call pid p (.close fd)).2.socketState i =
      if 2 < fd ∧ p.table.sockets[fd]? = some i then none else w.socketState i := by
  simp only [World.call, World.sysClose]
  rcases close_result p.table fd with ⟨hlow, he⟩ | ⟨hlow, id, hid, he⟩ | ⟨hlow, hnone, he⟩
  · rw [he, if_neg (by omega)]
    rfl
  · have hclose : p.table.close fd = (.socket id, (p.table.close fd).2) := Prod.ext he rfl
    rw [hclose]
    show (w.netClose id).2.socketState i = _
    rw [netClose_socketState, hid]
    simp [hlow, eq_comm]
  · rw [hnone, if_neg (by simp)]
    rcases he with he | he
    · have hclose : p.table.close fd = (.done, (p.table.close fd).2) := Prod.ext he rfl
      rw [hclose]
      rfl
    · have hclose : p.table.close fd = (.bad, (p.table.close fd).2) := Prod.ext he rfl
      rw [hclose]
      rfl

/-! ## Which copies are aliases -/

variable {w : World A} {pid : Nat} {p : Process} {a b : Nat}

theorem setTable_socketState (w : World A) (pid : Nat) (p : Process) (t : Table) (id : Nat) :
    (w.setTable pid p t).socketState id = w.socketState id := rfl

/-- `Aliased`, for the table that the copy left. -/
theorem aliased_setTable {t : Table} :
    Aliased (w.setTable pid p t) pid a b ↔
      t.acts b = t.acts a ∧
        Apart (w.setTable pid p t) t ((w.setTable pid p t).call pid { p with table := t } (.close b)).2 (t.close b).2 a b := by
  have hp : (w.setTable pid p t).process pid = some { p with table := t } := World.set_self ..
  have hclose := sysClose_process (w.setTable pid p t) pid { p with table := t } b
  constructor
  · rintro ⟨p₁, hp₁, hacts, p₂, hp₂, hapart⟩
    obtain rfl : { p with table := t } = p₁ := Option.some.inj (hp.symm.trans hp₁)
    obtain rfl := Option.some.inj (hclose.symm.trans hp₂)
    exact ⟨hacts, hapart⟩
  · rintro ⟨hacts, hapart⟩
    exact ⟨_, hp, hacts, _, hclose, hapart⟩

/-- A close of one of the first three descriptors does nothing, so it is apart when its socket is gone. -/
theorem apart_low {t : Table} (ht : t.WellFormed) (hlow : b ≤ 2) :
    Apart (w.setTable pid p t) t ((w.setTable pid p t).call pid { p with table := t } (.close b)).2 (t.close b).2 a b ↔
      ∃ id, t.sockets[b]? = some id ∧ w.socketState id = none := by
  have hsame : (t.close b).2 = t := by rw [Table.close, if_pos hlow]
  have hstate : ∀ i, ((w.setTable pid p t).call pid { p with table := t } (.close b)).2.socketState i =
      w.socketState i := by
    intro i
    rw [sysClose_socketState, if_neg (by omega), setTable_socketState]
  rw [hsame]
  constructor
  · intro h
    cases hsocket : t.sockets[b]? with
    | none => exact absurd ⟨h.read, h.write⟩ (not_refuses_of_low hlow hsocket)
    | some id =>
      have hread : t.readTarget b = some (.socket id) := congrArg Acts.read (acts_of_socket ht hsocket)
      refine ⟨id, rfl, ?_⟩
      have hrefuses := h.read
      rw [hread] at hrefuses
      exact (hstate id).symm.trans hrefuses
  · rintro ⟨id, hsocket, hgone⟩
    have hacts := acts_of_socket ht hsocket
    have hread : t.readTarget b = some (.socket id) := congrArg Acts.read hacts
    have hwrite : t.writeTarget b = some (.socket id) := congrArg Acts.write hacts
    refine ⟨?_, ?_, fun _ => rfl, fun _ i _ => (hstate i).trans (setTable_socketState ..).symm⟩
    · rw [hread]
      exact (hstate id).trans hgone
    · rw [hwrite]
      exact (hstate id).trans hgone

/-- A close of another descriptor is apart, unless it takes the socket of `a`. -/
theorem apart_high {t : Table} (ht : t.WellFormed) (hlow : 2 < b) :
    Apart (w.setTable pid p t) t ((w.setTable pid p t).call pid { p with table := t } (.close b)).2 (t.close b).2 a b ↔
      (a ≠ b → ∀ id, t.sockets[a]? = some id → t.sockets[b]? = some id → w.socketState id = none) := by
  have hacts : (t.close b).2.acts b = ⟨none, none, none⟩ := acts_of_empty hlow (close_entry ht hlow)
  have hread : (t.close b).2.readTarget b = none := congrArg Acts.read hacts
  have hwrite : (t.close b).2.writeTarget b = none := congrArg Acts.write hacts
  constructor
  · intro h hne id ha hb
    have hstate := h.state hne id ha
    rw [sysClose_socketState, if_pos ⟨hlow, hb⟩, setTable_socketState] at hstate
    exact hstate.symm
  · intro h
    refine ⟨by rw [hread]; trivial, by rw [hwrite]; trivial, fun hne => ?_, fun hne id ha => ?_⟩
    · exact acts_congr (Table.entry_close hne)
    · rw [sysClose_socketState, setTable_socketState]
      split
      · next hb => exact (h hne id ha hb.2).symm
      · rfl

/-- The copy of a table on itself. -/
theorem aliased_self (ht : p.table.WellFormed) :
    Aliased (w.setTable pid p p.table) pid b b ↔ Separable w p.table b b := by
  rw [aliased_setTable]
  by_cases hlow : 2 < b
  · rw [apart_high ht hlow]
    refine iff_of_true ⟨rfl, fun h => absurd rfl h⟩ ?_
    unfold Separable
    split
    · exact ⟨hlow, fun h => absurd hlow (by omega)⟩
    · exact .inl ⟨hlow, .inl rfl⟩
  · rw [apart_low ht (by omega)]
    unfold Separable
    split
    · next hnone => simp [hnone, hlow]
    · next id hid => simp [hid, hlow]

/-- A copy of a descriptor without a socket. -/
theorem aliased_plain {t : Table} (ht : p.table.WellFormed) (ht' : t.WellFormed) {object : Object} (hne : a ≠ b)
    (hobject : p.table.object a = some object) (hentry : t.entry b = object.entry)
    (hother : ∀ d, d ≠ b → t.entry d = p.table.entry d) (hsocket : p.table.sockets[a]? = none) :
    Aliased (w.setTable pid p t) pid a b ↔ 2 < b ∧ (a = 0 → p.table.files[0]? = none) := by
  have hsocketb : t.sockets[b]? = none := by
    cases object with
    | file file => exact congrArg Table.Entry.socket hentry
    | stdio target => exact congrArg Table.Entry.socket hentry
    | socket id ipv6 => exact absurd (hsocket.symm.trans (sockets_of_object hobject)) nofun
  rw [aliased_setTable]
  by_cases hlow : 2 < b
  · rw [apart_high ht' hlow, acts_copy_iff ht hne hlow hobject hentry hother hsocket]
    refine ⟨fun h => ⟨hlow, h.1⟩, fun h => ⟨h.2, fun _ id _ hb => ?_⟩⟩
    exact absurd (hsocketb.symm.trans hb) nofun
  · rw [apart_low ht' (by omega)]
    refine iff_of_false ?_ fun h => hlow h.1
    rintro ⟨-, id, hid, -⟩
    exact absurd (hsocketb.symm.trans hid) nofun

/-- A copy of a descriptor with a socket. -/
theorem aliased_socket {t : Table} (ht : p.table.WellFormed) (ht' : t.WellFormed) {object : Object} (hne : a ≠ b)
    (hobject : p.table.object a = some object) (hentry : t.entry b = object.entry)
    (hother : ∀ d, d ≠ b → t.entry d = p.table.entry d) {id : Nat} (hsocket : p.table.sockets[a]? = some id) :
    Aliased (w.setTable pid p t) pid a b ↔ 2 < a ∧ w.socketState id = none := by
  have hsocketa : t.sockets[a]? = some id := (congrArg Table.Entry.socket (hother a hne)).trans hsocket
  have hactsa := acts_of_socket ht' hsocketa
  obtain ⟨hhigh, hlow⟩ := socket_copy ht hobject hsocket
  rw [aliased_setTable]
  by_cases ha : 2 < a
  · obtain ⟨ipv6, rfl⟩ := hhigh ha
    have hsocketb : t.sockets[b]? = some id := congrArg Table.Entry.socket hentry
    rw [acts_of_socket ht' hsocketb, hactsa]
    by_cases hb : 2 < b
    · rw [apart_high ht' hb]
      refine ⟨fun h => ⟨ha, h.2 hne id hsocketa hsocketb⟩, fun h => ⟨rfl, fun _ i hi _ => ?_⟩⟩
      obtain rfl : id = i := Option.some.inj (hsocketa.symm.trans hi)
      exact h.2
    · rw [apart_low ht' (by omega)]
      constructor
      · rintro ⟨-, i, hi, hgone⟩
        obtain rfl : id = i := Option.some.inj (hsocketb.symm.trans hi)
        exact ⟨ha, hgone⟩
      · exact fun h => ⟨rfl, id, hsocketb, h.2⟩
  · -- the copy is one of the standard stream, whose writes are no socket's
    obtain rfl := hlow (by omega)
    have hsocketb : t.sockets[b]? = none := congrArg Table.Entry.socket hentry
    refine iff_of_false ?_ fun h => ha h.1
    rintro ⟨hacts, -⟩
    rw [hactsa] at hacts
    have hwrite : t.writeTarget b = some (.socket id) := congrArg Acts.write hacts
    rw [Table.writeTarget, hsocketb] at hwrite
    dsimp only at hwrite
    split at hwrite
    · cases hwrite
    split at hwrite <;> cases hwrite

/-- A copy, at any descriptor. -/
theorem aliased_copy {t : Table} (ht : p.table.WellFormed) (ht' : t.WellFormed) (hcopy : p.table.CopyOf t a b) :
    Aliased (w.setTable pid p t) pid a b ↔ Separable w p.table a b := by
  rcases hcopy with ⟨rfl, rfl⟩ | ⟨hne, object, hobject, hentry, hother⟩
  · exact aliased_self ht
  · unfold Separable
    cases hsocket : p.table.sockets[a]? with
    | none => exact aliased_plain ht ht' hne hobject hentry hother hsocket
    | some id =>
      rw [aliased_socket ht ht' hne hobject hentry hother hsocket]
      simp [hne]

/-- **Which copies are aliases**: in every state of every run of any number of processes, for every running process and
every `dup`, `dup2` or `F_DUPFD` of it that gives `b` for `a`, the calls on `b` act on the object that those on `a` act on,
and after a close of `b` they fail and those on `a` are unaffected, exactly when the copy is separable. -/
theorem duplicate_aliased_iff (A : SocketApi) (network : Bool) (events : List (Nat × Call)) :
    Visits World.step
      (fun w => ∀ pid p c a b, w.process pid = some p → p.running = true → c.Duplicates a →
        (w.call pid p c).1 = .ok b → (Aliased (w.call pid p c).2 pid a b ↔ Separable w p.table a b))
      (World.boot A network) events := by
  have hinv : Visits World.step World.Integral (World.boot A network) events := by
    refine Visits.of_step (fun w e w' hw _ h => ?_) (boot_integral network) (Meets.of_forall fun _ _ => trivial)
    obtain ⟨p, hp, hr, rfl⟩ := World.step_cases h
    exact call_integral hw hp hr e.2
  refine hinv.imp fun w hw pid p c a b hp hr hc hok => ?_
  have ht := hw.tables pid p hp hr
  have hw' := call_integral hw hp hr c
  obtain ⟨t, hcall, hcopy⟩ := duplicate_entries ht hc hok
  rw [hcall] at hw' ⊢
  have ht' : t.WellFormed := hw'.tables pid _ (World.set_self ..) hr
  exact aliased_copy ht ht' hcopy

end Alias

/-- A file at descriptor 3 is copied onto the standard input: reads of descriptor 0 still go to the console. -/
theorem dup2_onto_stdin_not_aliased :
    ¬ Visits World.step
      (fun w => ∀ pid p c a b, w.process pid = some p → p.running = true → c.Duplicates a →
        (w.call pid p c).1 = .ok b → Aliased (w.call pid p c).2 pid a b)
      (World.boot numberedSockets false) [(1, .openat (.ok ()))] := by
  intro h
  let t : Table := Table.empty.install 3 (.file 0)
  obtain ⟨p, hp, hacts, -⟩ := h.2 _ rfl 1 ⟨t, true⟩ (.dup2 3 0) 3 0 rfl rfl rfl rfl
  cases hp
  have hread : ((t.dup2 3 0).2.readTarget 0) = (t.dup2 3 0).2.readTarget 3 := congrArg Acts.read hacts
  exact absurd hread (by decide +kernel)

end Koros.Fd
