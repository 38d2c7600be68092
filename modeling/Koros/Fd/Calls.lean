import Koros.Fd.Table
import Koros.Lib.Runs

/-!
# Descriptors and sockets of any number of processes

The calls of `korix/src/syscall/mod.rs` that make, copy and drop descriptors, with `net::socket` and `net::close` of
`korix/src/net.rs`. A `World` is the process table, the network stack and the counters. smoltcp is a parameter: `SocketApi`
is its `SocketSet` and the `bind` of a UDP socket, with what their documentation says.

An event is a call by a running process. `World.call` gives its result and the world after it.
-/
set_option autoImplicit false

namespace Koros.Fd

open Koros.Lib

/-! ## smoltcp -/

/-- The `SocketSet` of smoltcp and the `bind` of its UDP sockets. -/
structure SocketApi where
  Handle : Type
  Sockets : Type
  /-- `SocketSet::new`. -/
  empty : Sockets
  /-- The handles of the sockets in the set. -/
  Mem : Sockets → Handle → Prop
  /-- `SocketSet::add`. -/
  add : Sockets → Handle × Sockets
  /-- `SocketSet::remove`. -/
  remove : Sockets → Handle → Sockets
  /-- Whether a new UDP socket can be bound to the port. -/
  bind : Nat → Bool
  not_mem_empty : ∀ h, ¬ Mem empty h
  add_new : ∀ s, ¬ Mem s (add s).1
  mem_add : ∀ s h, Mem (add s).2 h ↔ h = (add s).1 ∨ Mem s h
  mem_remove : ∀ s h h', Mem s h → (Mem (remove s h) h' ↔ h' ≠ h ∧ Mem s h')
  bind_iff : ∀ port, bind port = true ↔ port ≠ 0

inductive SocketKind where
  | tcp
  | udp
deriving DecidableEq, Repr

structure SocketState (A : SocketApi) where
  kind : SocketKind
  handle : A.Handle
  localPort : Nat

structure NetworkStack (A : SocketApi) where
  sockets : A.Sockets
  states : Std.TreeMap Nat (SocketState A)

/-! ## Processes -/

structure Process where
  table : Table
  running : Bool

structure World (A : SocketApi) where
  process : Nat → Option Process
  /-- `NEXT_PID`, the last number that was given. -/
  nextPid : Nat
  /-- `STACK`. -/
  stack : Option (NetworkStack A)
  /-- `NEXT_SOCKET`. -/
  nextSocket : Nat
  /-- `NEXT_PORT`. -/
  nextPort : Nat
  /-- The number of the next shared file entry. -/
  nextFile : Nat

inductive Call where
  /-- `openat` of a filesystem path: the error of the search, or a file that was found or made. -/
  | openat (opened : Except Int Unit)
  | socket (domain type : Nat)
  | dup (fd : Nat)
  | dup2 (fd newfd : Nat)
  | fcntl (fd command argument : Nat)
  | close (fd : Nat)
  | clone
  | exit

namespace World

variable {A : SocketApi}

def set (w : World A) (pid : Nat) (p : Process) : World A := { w with process := Function.update w.process pid (some p) }

def setTable (w : World A) (pid : Nat) (p : Process) (t : Table) : World A := w.set pid { p with table := t }

/-- `net::socket`. -/
def netSocket (w : World A) (kind : Nat) : Except Int Nat × World A :=
  match w.stack with
  | none => (.error (-100), w)
  | some stack =>
    match (if kind = 1 then some SocketKind.tcp else if kind = 2 then some .udp else none) with
    | none => (.error (-94), w)
    | some kind =>
      let (handle, sockets) := A.add stack.sockets
      let id := w.nextSocket
      let localPort := w.nextPort
      let w := { w with
        stack := some { stack with sockets := sockets }
        nextSocket := (w.nextSocket + 1) % 2 ^ 64
        nextPort := (w.nextPort + 1) % 2 ^ 16 }
      -- the new socket stays in the set when `bind` fails
      if kind = .udp ∧ A.bind localPort = false then (.error (-98), w)
      else
        (.ok id, { w with stack := some ⟨sockets, stack.states.insert id ⟨kind, handle, localPort⟩⟩ })

/-- `net::close`. -/
def netClose (w : World A) (id : Nat) : Bool × World A :=
  match w.stack with
  | none => (false, w)
  | some stack =>
    match stack.states[id]? with
    | none => (false, w)
    | some state => (true, { w with stack := some ⟨A.remove stack.sockets state.handle, stack.states.erase id⟩ })

/-- The state that `net::send` and `net::recv` find for a socket. -/
def socketState (w : World A) (id : Nat) : Option (SocketState A) := w.stack.bind fun stack => stack.states[id]?

def sysSocket (w : World A) (pid : Nat) (p : Process) (domain type : Nat) : Except Int Nat × World A :=
  if domain ≠ 2 ∧ domain ≠ 10 then (.error (-97), w)
  else
    match w.netSocket (type % 256) with
    | (.error e, w) => (.error e, w)
    | (.ok id, w) =>
      let fd := p.table.nextFd
      (.ok fd, w.setTable pid p (p.table.install fd (.socket id (domain == 10))))

def sysClose (w : World A) (pid : Nat) (p : Process) (fd : Nat) : Except Int Nat × World A :=
  match p.table.close fd with
  | (.done, t) => (.ok 0, w.setTable pid p t)
  | (.bad, t) => (.error ebadf, w.setTable pid p t)
  | (.socket id, t) =>
    let (closed, w) := w.netClose id
    (if closed then .ok 0 else .error ebadf, w.setTable pid p t)

/-- The end of `exit_current` for the descriptors: `files.clear` and `sockets.clear`. -/
def exitCurrent (w : World A) (pid : Nat) (p : Process) : World A :=
  w.set pid ⟨{ p.table with files := ∅, sockets := ∅ }, false⟩

def call (w : World A) (pid : Nat) (p : Process) : Call → Except Int Nat × World A
  | .openat (.error e) => (.error e, w)
  | .openat (.ok ()) =>
    let fd := p.table.nextFd
    (.ok fd, { w.setTable pid p (p.table.install fd (.file w.nextFile)) with nextFile := w.nextFile + 1 })
  | .socket domain type => w.sysSocket pid p domain type
  | .dup fd => let (result, t) := p.table.dup fd; (result, w.setTable pid p t)
  | .dup2 fd newfd => let (result, t) := p.table.dup2 fd newfd; (result, w.setTable pid p t)
  | .fcntl fd command argument => let (result, t) := p.table.fcntl fd command argument; (result, w.setTable pid p t)
  | .close fd => w.sysClose pid p fd
  | .clone => (.ok (w.nextPid + 1), { w.set (w.nextPid + 1) ⟨p.table, true⟩ with nextPid := w.nextPid + 1 })
  | .exit => (.ok 0, w.exitCurrent pid p)

/-- A call by a running process. -/
def step (w : World A) (e : Nat × Call) : Option (World A) :=
  match w.process e.1 with
  | some p => if p.running then some (w.call e.1 p e.2).2 else none
  | none => none

/-- The first process, with the network installed or not. -/
def boot (A : SocketApi) (network : Bool) : World A :=
  { process := fun pid => if pid = 1 then some ⟨.empty, true⟩ else none
    nextPid := 1
    stack := if network then some ⟨A.empty, ∅⟩ else none
    nextSocket := 1
    nextPort := 49152
    nextFile := 0 }

theorem step_cases {w w' : World A} {pid : Nat} {c : Call} (h : w.step (pid, c) = some w') :
    ∃ p, w.process pid = some p ∧ p.running = true ∧ w' = (w.call pid p c).2 := by
  simp only [step] at h
  split at h
  · next p hp =>
    split at h
    · next hr => exact ⟨p, hp, hr, (Option.some.inj h).symm⟩
    · cases h
  · cases h

/-! ## What a call does to the process table -/

@[simp] theorem set_self (w : World A) (pid : Nat) (p : Process) : (w.set pid p).process pid = some p :=
  Function.update_self ..

theorem set_of_ne (w : World A) {pid q : Nat} (p : Process) (h : q ≠ pid) : (w.set pid p).process q = w.process q :=
  Function.update_of_ne h ..

theorem netSocket_process (w : World A) (kind : Nat) :
    (w.netSocket kind).2.process = w.process ∧ (w.netSocket kind).2.nextPid = w.nextPid := by
  unfold netSocket
  split
  · exact ⟨rfl, rfl⟩
  split
  · exact ⟨rfl, rfl⟩
  dsimp only
  split <;> exact ⟨rfl, rfl⟩

theorem netClose_process (w : World A) (id : Nat) :
    (w.netClose id).2.process = w.process ∧ (w.netClose id).2.nextPid = w.nextPid := by
  unfold netClose
  split
  · exact ⟨rfl, rfl⟩
  split <;> exact ⟨rfl, rfl⟩

end World

end Koros.Fd
