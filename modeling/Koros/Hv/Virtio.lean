import Koros.Lib.Bytes
import Koros.Lib.Checked

/-!
# Forwarded virtio-mmio devices

The virtio-mmio branch of `handle_mmio` in `korhv/src/arch/aarch64/hyp.rs`: each guest owns one physical device, whose
registers it writes through the hypervisor. The hypervisor translates the queue's page number, and on a notify it
translates the descriptors in the guest's memory, forwards the notify and puts the guest's addresses back.

The device is a legacy (version 1) virtio-mmio device, the interface that the hypervisor drives: it lays the rings of a
queue out from its registers and reads descriptors at any time after a notify. A run interleaves the guest's accesses
with the device's writes into memory; the time between the forwarded notify and the restored descriptors is a state of
its own (`Sys.saved`).
-/
set_option autoImplicit false

namespace Koros.Hv

open Koros.Lib

/-! ## Guest memory -/

structure GuestManifest where
  ipaBase : Nat
  hpaBase : Nat
  memorySize : Nat
  dtbIpa : Nat
  dtbHpa : Nat
deriving DecidableEq, Repr

/-- `GUEST_MANIFESTS`. -/
def guestManifests : Fin 2 → GuestManifest
  | 0 => ⟨0x40200000, 0x40200000, 0x04000000, 0x49000000, 0x48200000⟩
  | 1 => ⟨0x40200000, 0x44200000, 0x04000000, 0x49000000, 0x48400000⟩

/-- `GuestMemory::translate`. -/
def GuestManifest.translate (g : GuestManifest) (gpa length : Nat) : Option Nat := do
  let last ← checkedAdd gpa length
  let memoryEnd ← checkedAdd g.ipaBase g.memorySize
  if gpa < g.ipaBase ∨ memoryEnd < last then none
  else checkedAdd g.hpaBase (gpa - g.ipaBase)

/-! ## The device -/

structure Queue where
  num : Nat
  align : Nat
  /-- The page number in `QueuePFN`; zero while the queue is not in use. -/
  pfn : Nat
  /-- The device was notified since the queue was set up, so it may read descriptors. -/
  notified : Bool
deriving DecidableEq, Repr

def Queue.reset : Queue := ⟨0, 0, 0, false⟩

structure Device where
  pageSize : Nat
  sel : Nat
  queues : Nat → Queue

def Device.reset : Device := ⟨0, 0, fun _ => .reset⟩

namespace Device

def setQueue (d : Device) (f : Queue → Queue) : Device :=
  { d with queues := Function.update d.queues d.sel (f (d.queues d.sel)) }

/-- A write of a register. -/
def write (d : Device) (off val : Nat) : Device :=
  match off with
  | 0x028 => { d with pageSize := val }
  | 0x030 => { d with sel := val }
  | 0x038 => d.setQueue fun q => { q with num := val }
  | 0x03c => d.setQueue fun q => { q with align := val }
  | 0x040 => d.setQueue fun q => { q with pfn := val, notified := q.notified && val != 0 }
  | 0x050 => { d with queues := Function.update d.queues val { d.queues val with notified := true } }
  | 0x070 => if val = 0 then reset else d
  | _ => d

/-- The address of the descriptor table. -/
def descTable (d : Device) (q : Nat) : Nat := (d.queues q).pfn * d.pageSize

end Device

/-- `x` rounded up to a multiple of `a`. -/
def alignUp (x a : Nat) : Nat := if a = 0 then x else (x + a - 1) / a * a

/-- The available ring follows the descriptor table: two words, the entries and the event word. -/
def availStart (table num : Nat) : Nat := table + 16 * num

def availSize (num : Nat) : Nat := 6 + 2 * num

/-- The used ring starts at the queue's alignment. -/
def usedStart (table num align : Nat) : Nat := alignUp (availStart table num + availSize num) align

def usedSize (num : Nat) : Nat := 6 + 8 * num

/-! ## Descriptors -/

def descAddr (mem : Bytes) (p : Nat) : Nat := leNat mem p 8

def descLen (mem : Bytes) (p : Nat) : Nat := leNat mem (p + 8) 4

def descFlags (mem : Bytes) (p : Nat) : Nat := leNat mem (p + 12) 2

/-- `flags & 4`. -/
def isIndirect (mem : Bytes) (p : Nat) : Bool := descFlags mem p &&& 4 != 0

/-! ## The hypervisor -/

/-- Addresses that were overwritten, with the guest's values. -/
abbrev SavedList := List (Nat × Nat)

/-- The loop over an indirect table: memory as it leaves it, and what to put back if every entry was accepted. -/
def translateIndirect (g : GuestManifest) : (count p : Nat) → Bytes → SavedList → Bytes × Option SavedList
  | 0, _, mem, saved => (mem, some saved)
  | k + 1, p, mem, saved =>
    let address := descAddr mem p
    match g.translate address (descLen mem p) with
    | none => (mem, none)
    | some hpa => translateIndirect g k (p + 16) (putLe mem p 8 hpa) (saved ++ [(p, address)])

/-- The loop over the descriptor table. -/
def translateTable (g : GuestManifest) (queueSize : Nat) :
    (count p : Nat) → Bytes → SavedList → Bytes × Option SavedList
  | 0, _, mem, saved => (mem, some saved)
  | k + 1, p, mem, saved =>
    let address := descAddr mem p
    let length := descLen mem p
    let indirect := isIndirect mem p
    match g.translate address length with
    | none => (mem, none)
    | some hpa =>
      let saved := saved ++ [(p, address)]
      let mem := putLe mem p 8 hpa
      if indirect then
        if length = 0 ∨ length % 16 ≠ 0 ∨ queueSize < length / 16 then (mem, none)
        else
          match translateIndirect g (length / 16) hpa mem saved with
          | (mem, none) => (mem, none)
          | (mem, some saved) => translateTable g queueSize k (p + 16) mem saved
      else translateTable g queueSize k (p + 16) mem saved

structure Sys where
  /-- Host physical memory. -/
  mem : Bytes
  dev : Device
  /-- The descriptors to put back, while the hypervisor waits for the device after a notify. -/
  saved : Option SavedList
  /-- The guest was stopped. -/
  done : Bool

namespace Sys

/-- A notify: `num` is what the device answers to the read of `QueueNum`, a write-only register. -/
def notify (g : GuestManifest) (s : Sys) (val num : Nat) : Sys :=
  let qpn := (s.dev.queues s.dev.sel).pfn
  if num = 0 ∨ 1024 < num then { s with done := true }
  else
    match g.translate (qpn * 4096) (num * 16) with
    | none => { s with done := true }
    | some descHpa =>
      match translateTable g num num descHpa s.mem [] with
      | (mem, none) => { s with mem := mem, done := true }
      | (mem, some saved) => { s with mem := mem, dev := s.dev.write 0x050 (val % 2 ^ 32), saved := some saved }

/-- The value written for `QueuePFN`. -/
def queuePfn (g : GuestManifest) (val : Nat) : Option Nat := (g.translate (val * 4096 % 2 ^ 64) 4096).map (· / 4096)

/-- The virtio-mmio branch of `handle_mmio` for a write; a stopped guest is one whose access returned `false`. -/
def mmioWrite (g : GuestManifest) (s : Sys) (off val num : Nat) : Sys :=
  if off = 0x050 then s.notify g val num
  else if off = 0x040 then
    match queuePfn g val with
    | none => { s with done := true }
    | some value => { s with dev := s.dev.write 0x040 (value % 2 ^ 32) }
  else { s with dev := s.dev.write off (val % 2 ^ 32) }

/-- Put the guest's addresses back, the last one first. -/
def restore (s : Sys) (saved : SavedList) : Sys :=
  { s with mem := saved.reverse.foldl (fun mem e => putLe mem e.1 8 e.2) s.mem, saved := none }

end Sys

/-! ## Runs -/

inductive Event where
  /-- The guest writes a device register; `num` is the device's answer if the hypervisor reads `QueueNum`. -/
  | write (off val num : Nat)
  /-- The guest reads a device register. -/
  | read (off : Nat)
  /-- The guest writes a byte of its memory, named by its host address. -/
  | store (addr : Nat) (byte : Byte)
  /-- The device writes a byte. -/
  | dma (addr : Nat) (byte : Byte)
  /-- The hypervisor stops waiting for the device and puts the descriptors back. -/
  | restore
deriving DecidableEq, Repr

namespace Sys

/-- The guest runs: it was not stopped and the hypervisor is not handling its notify. -/
def guestRuns (s : Sys) : Bool := !s.done && s.saved.isNone

def step (g : GuestManifest) (s : Sys) : Event → Option Sys
  | .write off val num => if s.guestRuns ∧ off < 0x200 ∧ val < 2 ^ 64 then some (s.mmioWrite g off val num) else none
  | .read _ => if s.guestRuns then some s else none
  | .store addr byte =>
    if s.guestRuns ∧ g.hpaBase ≤ addr ∧ addr < g.hpaBase + g.memorySize then
      some { s with mem := Function.update s.mem addr byte }
    else none
  | .dma addr byte => some { s with mem := Function.update s.mem addr byte }
  | .restore => s.saved.map s.restore

def run (g : GuestManifest) (s : Sys) : List Event → Option Sys
  | [] => some s
  | e :: es => (s.step g e).bind fun s => s.run g es

/-- The guest starts with any content of memory and a device out of reset. -/
def boot (mem : Bytes) : Sys := ⟨mem, .reset, none, false⟩

end Sys

end Koros.Hv
