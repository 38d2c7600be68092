import Koros.Lib.Words
import Koros.Hv.Virtio

/-!
# The run loop of the hypervisor

`korhv/src/arch/aarch64/hyp.rs` and `console_mux.rs`: two guests share one processor. Each has a virtual GIC and a
virtual UART, which it reaches by trapped accesses (`handle_mmio`); a turn of the loop in `run` enters the current
guest until it traps or a physical interrupt arrives, takes one byte of console input and handles the exit.

What the hardware and the guest decide in a turn is an `Exit`: the registers the guest leaves, the syndrome, what the
physical interrupt controller, the UART and the guest's device answer, and the content of memory. A turn in which the
hypervisor panics (an interrupt number beyond the 256 of the virtual GIC) is one that cannot happen.
-/
set_option autoImplicit false

namespace Koros.Hv

open Koros.Lib

/-- The hypervisor has two guests. -/
local instance two_guests : NeZero 2 := ⟨by decide⟩

local instance word32_lawful : LawfulBEq (BitVec 32) := inferInstance

/-! ## The virtual GIC -/

structure Vgic where
  gicdCtlr : BitVec 32
  /-- Eight words, one bit for each of 256 interrupts. -/
  enabled : Nat → BitVec 32
  pending : Nat → BitVec 32
  prio : Nat → Byte
  giccCtlr : BitVec 32
  giccPmr : BitVec 32
  active : BitVec 32

namespace Vgic

def new : Vgic := ⟨0, fun _ => 0, fun _ => 0, fun _ => 0, 0, 0, 0x3ff⟩

/-- `Vgic::inject`, for an interrupt below 256. -/
def inject (v : Vgic) (irq : Nat) : Vgic := { v with pending := writeBitAt true v.pending irq }

/-- The first word with an interrupt that is pending and enabled, and the interrupt. -/
def highest (v : Vgic) : Option (Nat × Nat) :=
  (List.range 8).findSome? fun i =>
    let m := v.pending i &&& v.enabled i
    if m ≠ 0 then some (i, i * 32 + m.ctz.toNat) else none

/-- `Vgic::iar`: acknowledge an interrupt. -/
def iar (v : Vgic) : BitVec 32 × Vgic :=
  match v.highest with
  | some (i, irq) =>
    (BitVec.ofNat 32 irq,
      { v with
        pending := Function.update v.pending i (v.pending i &&& ~~~(1#32 <<< (irq % 32)))
        active := BitVec.ofNat 32 irq })
  | none => (0x3ff, v)

def eoir (v : Vgic) (irq : BitVec 32) : Vgic := if v.active = irq then { v with active := 0x3ff } else v

def gicdRead (v : Vgic) (off : Nat) : BitVec 32 :=
  if off = 0x000 then v.gicdCtlr
  else if off = 0x004 then 7
  else if 0x100 ≤ off ∧ off ≤ 0x11c then v.enabled ((off - 0x100) / 4)
  else if 0x180 ≤ off ∧ off ≤ 0x19c then v.enabled ((off - 0x180) / 4)
  else if 0x200 ≤ off ∧ off ≤ 0x21c then v.pending ((off - 0x200) / 4)
  else if 0x280 ≤ off ∧ off ≤ 0x29c then v.pending ((off - 0x280) / 4)
  else if 0x400 ≤ off ∧ off ≤ 0x4ff then (v.prio (off - 0x400)).setWidth 32
  else if 0x800 ≤ off ∧ off ≤ 0x8ff then 1
  else if 0xc00 ≤ off ∧ off ≤ 0xc3c then 0xaaaaaaaa
  else 0

def gicdWrite (v : Vgic) (off : Nat) (val : BitVec 32) : Vgic :=
  if off = 0x000 then { v with gicdCtlr := val }
  else if 0x100 ≤ off ∧ off ≤ 0x11c then
    let i := (off - 0x100) / 4
    { v with enabled := Function.update v.enabled i (v.enabled i ||| val) }
  else if 0x180 ≤ off ∧ off ≤ 0x19c then
    let i := (off - 0x180) / 4
    { v with enabled := Function.update v.enabled i (v.enabled i &&& ~~~val) }
  else if 0x200 ≤ off ∧ off ≤ 0x21c then
    let i := (off - 0x200) / 4
    { v with pending := Function.update v.pending i (v.pending i ||| val) }
  else if 0x280 ≤ off ∧ off ≤ 0x29c then
    let i := (off - 0x280) / 4
    { v with pending := Function.update v.pending i (v.pending i &&& ~~~val) }
  else if 0x400 ≤ off ∧ off ≤ 0x4ff then { v with prio := Function.update v.prio (off - 0x400) (val.setWidth 8) }
  else v

def giccRead (v : Vgic) (off : Nat) : BitVec 32 × Vgic :=
  match off with
  | 0x000 => (v.giccCtlr, v)
  | 0x004 => (v.giccPmr, v)
  | 0x00c => v.iar
  | 0x018 => (((v.highest).map fun p => BitVec.ofNat 32 p.2).getD 0x3ff, v)
  | _ => (0, v)

def giccWrite (v : Vgic) (off : Nat) (val : BitVec 32) : Vgic :=
  match off with
  | 0x000 => { v with giccCtlr := val }
  | 0x004 => { v with giccPmr := val }
  | 0x010 => v.eoir val
  | _ => v

end Vgic

/-! ## The virtual UART -/

structure Vuart where
  cr : BitVec 32
  lcrH : BitVec 32
  imsc : BitVec 32
  ibrd : BitVec 32
  ifls : BitVec 32
  txris : Bool
  /-- The ring `rxbuf` from `rxhead` on. -/
  rx : List Byte

namespace Vuart

def new : Vuart := ⟨0, 0, 0, 0, 0, false, []⟩

def rxPush (u : Vuart) (ch : Byte) : Vuart := if u.rx.length < 256 then { u with rx := u.rx ++ [ch] } else u

def rxPop (u : Vuart) : Option Byte × Vuart := (u.rx.head?, { u with rx := u.rx.tail })

def hasRx (u : Vuart) : Bool := !u.rx.isEmpty

/-- `UARTRIS`. -/
def ris (u : Vuart) : BitVec 32 := (if u.hasRx then 1 else 0) ||| (if u.txris then 2 else 0)

/-- `uart_read`. -/
def read (u : Vuart) (off : Nat) : BitVec 32 × Vuart :=
  match off with
  | 0x000 => ((u.rxPop.1.map (·.setWidth 32)).getD 0, u.rxPop.2)
  | 0x018 => (if u.hasRx then 0x10 else 0x90, u)
  | 0x028 => (u.ibrd, u)
  | 0x02c => (u.lcrH, u)
  | 0x030 => (u.cr, u)
  | 0x034 => (u.ifls, u)
  | 0x038 => (u.ris, u)
  | 0x03c => (u.ris &&& u.imsc, u)
  | 0x044 => (u.imsc, u)
  | 0xfe0 => (0x11, u)
  | 0xfe4 => (0x10, u)
  | 0xfe8 => (0x14, u)
  | 0xff0 => (0x0d, u)
  | 0xff4 => (0xf0, u)
  | 0xff8 => (0x05, u)
  | 0xffc => (0xb1, u)
  | _ => (0, u)

/-- `uart_write`; a byte written to the data register goes to the physical UART. -/
def write (u : Vuart) (off : Nat) (val : BitVec 32) (v : Vgic) : Vuart × Vgic :=
  match off with
  | 0x028 => ({ u with ibrd := val }, v)
  | 0x02c => ({ u with lcrH := val }, v)
  | 0x030 => ({ u with cr := val }, v)
  | 0x034 => ({ u with ifls := val }, v)
  | 0x040 => (if val &&& 2 ≠ 0 then { u with txris := false } else u, v)
  | 0x044 =>
    let tx := val &&& 2 ≠ 0
    let v := if tx then v.inject 33 else v
    ({ u with imsc := val ||| 1, txris := u.txris || tx }, if u.hasRx then v.inject 33 else v)
  | _ => (u, v)

end Vuart

/-! ## Guests -/

structure Vcpu where
  regs : Nat → BitVec 64
  elr : BitVec 64

structure Guest where
  vcpu : Vcpu
  vgic : Vgic
  vuart : Vuart
  done : Bool

def Guest.new (m : GuestManifest) : Guest :=
  ⟨⟨Function.update (fun _ => 0) 0 (BitVec.ofNat 64 m.dtbIpa), BitVec.ofNat 64 m.ipaBase⟩, .new, .new, false⟩

/-- What the guest and the hardware decide in one turn. -/
structure Exit where
  /-- The guest's registers when it leaves. -/
  vcpu : Vcpu
  /-- What `vcpu_enter` returns: the syndrome, with the top bit set for a physical interrupt. -/
  esr : BitVec 64
  /-- The byte in the physical UART after the exit. -/
  input : Option Byte
  /-- The answer of the physical `GICC_IAR`. -/
  iar : BitVec 32
  far : BitVec 64
  hpfar : BitVec 64
  /-- The byte in the physical UART when an idle guest or one that asks for a character is handled. -/
  poll : Option Byte
  /-- The answers of the guest's device to a read of the register, of `QueuePFN` and of `QueueNum`. -/
  answer : BitVec 32
  qpn : BitVec 32
  queueSize : BitVec 32
  /-- Host memory. -/
  mem : Bytes
  /-- The words read from the physical `GICD_ISPENDR1` after a notify. -/
  polls : List (BitVec 32)

/-! ## Trapped accesses -/

def gicdBase : Nat := 0x08000000

def giccBase : Nat := 0x08010000

def uartBase : Nat := 0x09000000

def virtioBase : Nat := 0x0a000000

namespace Exit

def isv (e : Exit) : Bool := e.esr.getLsbD 24

def srt (e : Exit) : Nat := (e.esr >>> 16 &&& 0x1f).toNat

def sf (e : Exit) : Bool := e.esr.getLsbD 15

def wnr (e : Exit) : Bool := e.esr.getLsbD 6

def ipa (e : Exit) : Nat := (e.hpfar <<< 8 ||| (e.far &&& 0xfff)).toNat

def valIn (e : Exit) : BitVec 64 :=
  if e.srt < 31 then (if e.sf then e.vcpu.regs e.srt else e.vcpu.regs e.srt &&& 0xffffffff) else 0

/-- The exit is a physical interrupt that the interrupt controller names. -/
def takesIrq (e : Exit) : Bool := e.esr.getLsbD 63 && decide (e.iar.toNat < 0x3fe)

/-- The word stored by a write. -/
def val (e : Exit) : BitVec 32 := e.valIn.setWidth 32

end Exit

/-- A register of the guest written with the answer to a read. -/
def Vcpu.answer (c : Vcpu) (e : Exit) (r : BitVec 32) : Vcpu :=
  if e.srt < 31 then { c with regs := Function.update c.regs e.srt (r.setWidth 64) } else c

/-- The character returned to a guest that asks for one: the physical UART first, then the virtual one. -/
def getchar (u : Vuart) (poll : Option Byte) : BitVec 64 × Vuart :=
  match poll with
  | some ch => (if ch ≠ 0 then ch.setWidth 64 else 0xffffffff, u)
  | none =>
    (match u.rxPop.1 with
     | some ch => if ch ≠ 0 then ch.setWidth 64 else 0xffffffff
     | none => 0xffffffff,
     u.rxPop.2)

/-- The checks and the translation before a notify is forwarded. -/
def notifyAccepted (m : GuestManifest) (e : Exit) : Bool :=
  let queueSize := e.queueSize.toNat
  if queueSize = 0 ∨ 1024 < queueSize then false
  else
    match m.translate (e.qpn.toNat * 4096) (queueSize * 16) with
    | none => false
    | some descHpa => (translateTable m queueSize queueSize descHpa e.mem []).2.isSome

/-- The wait after a notify sees the interrupt of the guest's device. -/
def spiSeen (gid : Fin 2) (e : Exit) : Bool :=
  (e.polls.take 200000).any fun isp1 => isp1 &&& (1#32 <<< (16 + gid.val)) != 0#32

/-- A write to the guest's virtio-mmio device. -/
def virtioWrite (gid : Fin 2) (v : Vgic) (e : Exit) (off : Nat) : Option Vgic :=
  if off = 0x050 then
    if notifyAccepted (guestManifests gid) e then some (if spiSeen gid e then v.inject 48 else v) else none
  else if off = 0x040 then (Sys.queuePfn (guestManifests gid) e.valIn.toNat).map fun _ => v
  else some v

/-- The branches of `handle_mmio` for an access with a valid syndrome; `none` is `return false`. -/
def mmioAccess (gid : Fin 2) (g : Guest) (e : Exit) : Option Guest :=
  let ipa := e.ipa
  if gicdBase ≤ ipa ∧ ipa < gicdBase + 0x10000 then
    let off := ipa - gicdBase
    if e.wnr then some { g with vgic := g.vgic.gicdWrite off e.val }
    else some { g with vcpu := g.vcpu.answer e (g.vgic.gicdRead off) }
  else if giccBase ≤ ipa ∧ ipa < giccBase + 0x10000 then
    let off := ipa - giccBase
    if e.wnr then some { g with vgic := g.vgic.giccWrite off e.val }
    else some { g with vgic := (g.vgic.giccRead off).2, vcpu := g.vcpu.answer e (g.vgic.giccRead off).1 }
  else if uartBase ≤ ipa ∧ ipa < uartBase + 0x1000 then
    let off := ipa - uartBase
    if e.wnr then
      some { g with vuart := (g.vuart.write off e.val g.vgic).1, vgic := (g.vuart.write off e.val g.vgic).2 }
    else some { g with vuart := (g.vuart.read off).2, vcpu := g.vcpu.answer e (g.vuart.read off).1 }
  else if virtioBase ≤ ipa ∧ ipa < virtioBase + 0x200 then
    if e.wnr then (virtioWrite gid g.vgic e (ipa - virtioBase)).map fun v => { g with vgic := v }
    else some { g with vcpu := g.vcpu.answer e e.answer }
  else if ipa = 0x0a010000 then
    if e.wnr then some g
    else
      let r := getchar g.vuart e.poll
      some { g with
        vuart := r.2
        vcpu := if e.srt < 31 then { g.vcpu with regs := Function.update g.vcpu.regs e.srt r.1 } else g.vcpu }
  else if 0x40000000 ≤ ipa ∧ ipa < 0x80000000 then none
  else some g

/-- `handle_mmio`; a guest whose access is refused keeps its program counter and is stopped by the loop. -/
def handleMmio (gid : Fin 2) (g : Guest) (e : Exit) : Option Guest :=
  if e.isv then
    (mmioAccess gid g e).map fun g => { g with vcpu := { g.vcpu with elr := g.vcpu.elr + 4 } }
  else none

/-! ## Hypercalls -/

def psciSystemOff : BitVec 32 := 0x84000008

def psciSystemReset : BitVec 32 := 0xc4000009

/-- `handle_psci`: the register written, or `none` if the guest is switched off. -/
def handlePsci (c : Vcpu) : Option Vcpu :=
  let answer r := some { c with regs := Function.update c.regs 0 r }
  let func := (c.regs 0).setWidth 32
  let arg := (c.regs 1).setWidth 32
  if func = 0x84000000#32 then answer 0x00010001
  else if func = 0x84000006#32 then answer 2
  else if func = 0x8400000a#32 then
    answer (if arg ∈ [0x84000000#32, 0x84000006#32, 0x8400000a#32, psciSystemOff, psciSystemReset] then 0
      else BitVec.allOnes 64)
  else if func = psciSystemOff ∨ func = psciSystemReset then none
  else answer (BitVec.allOnes 64)

/-! ## The console -/

inductive InputAction where
  | none
  | attach (guest : Fin 2)
  | status
  | guestByte (guest : Fin 2) (byte : Byte)
deriving DecidableEq, Repr

structure ConsoleMux where
  /-- The guest that is attached; without one, input goes to the host's command line. -/
  active : Option (Fin 2)
  command : List Byte
deriving DecidableEq, Repr

namespace ConsoleMux

def new : ConsoleMux := ⟨none, []⟩

/-- `trim` of a command, whose characters are all printable. -/
def trim (s : List Byte) : List Byte := ((s.dropWhile (· = 0x20)).reverse.dropWhile (· = 0x20)).reverse

def ascii (s : String) : List Byte := s.toList.map fun c => BitVec.ofNat 8 c.toNat

def executeCommand (c : ConsoleMux) : InputAction × ConsoleMux :=
  let command := trim c.command
  (if command = ascii "enter 0" then .attach 0
   else if command = ascii "enter 1" then .attach 1
   else if command = ascii "status" then .status
   else .none,
   { c with command := [] })

def input (c : ConsoleMux) (byte : Byte) : InputAction × ConsoleMux :=
  match c.active with
  | some guest => if byte = 0x0f then (.none, { c with active := none }) else (.guestByte guest byte, c)
  | none =>
    if byte = 0x0d ∨ byte = 0x0a then c.executeCommand
    else if (byte = 0x08 ∨ byte = 0x7f) ∧ 0 < c.command.length then (.none, { c with command := c.command.dropLast })
    else if 0x20 ≤ byte ∧ byte ≤ 0x7e ∧ c.command.length < 64 then (.none, { c with command := c.command ++ [byte] })
    else (.none, c)

end ConsoleMux

/-! ## The loop -/

structure Hyp where
  gs : Fin 2 → Guest
  cur : Fin 2
  console : ConsoleMux

namespace Hyp

/-- The state in which `run` enters its loop. -/
def boot : Hyp := ⟨fun g => .new (guestManifests g), 0, .new⟩

def setGuest (h : Hyp) (i : Fin 2) (g : Guest) : Hyp := { h with gs := Function.update h.gs i g }

/-- The guest that the next turn enters: the loop passes over a current guest that is done. -/
def running (h : Hyp) : Fin 2 := if (h.gs h.cur).done then 1 - h.cur else h.cur

/-- Console input is handled before the exit. -/
def consoleInput (h : Hyp) : Option Byte → Hyp
  | none => h
  | some byte =>
    let r := h.console.input byte
    match r.1 with
    | .attach guest => { h with console := if (h.gs guest).done then r.2 else { r.2 with active := some guest } }
    | .guestByte guest byte =>
      let g := h.gs guest
      { h.setGuest guest { g with vuart := g.vuart.rxPush byte, vgic := g.vgic.inject 33 } with console := r.2 }
    | _ => { h with console := r.2 }

def timerIrq : Nat := 27

def slicePpi : Nat := 30

/-- A physical interrupt goes to the current guest; `none` is the panic of `inject`. -/
def physicalIrq (h : Hyp) (iar : Nat) : Option Hyp :=
  let g := h.gs h.cur
  if iar = timerIrq then some (h.setGuest h.cur { g with vgic := g.vgic.inject timerIrq })
  else if iar = slicePpi then some h
  else if 32 ≤ iar then
    let virq := if iar = 49 ∧ h.cur = 1 then 48 else iar
    if virq / 32 < 8 then some (h.setGuest h.cur { g with vgic := g.vgic.inject virq }) else none
  else some h

/-- The current guest is done and the other one comes next. -/
def stop (h : Hyp) : Hyp :=
  { h.setGuest h.cur { h.gs h.cur with done := true } with cur := 1 - h.cur }

/-- The exception class; the mask only takes the top bit away. -/
def exceptionClass (e : Exit) : Nat := ((e.esr &&& ~~~(1#64 <<< 63)) >>> 26).toNat

/-- `EC_SMC | EC_HVC`. -/
def hypercall (h : Hyp) (e : Exit) : Hyp :=
  let g := h.gs h.cur
  if g.vcpu.regs 0 = 0x100 then
    let r := getchar g.vuart e.poll
    h.setGuest h.cur { g with vuart := r.2, vcpu := { g.vcpu with regs := Function.update g.vcpu.regs 0 r.1 } }
  else
    match handlePsci g.vcpu with
    | some vcpu => h.setGuest h.cur { g with vcpu := vcpu }
    | none => h.stop

/-- `EC_WFI`: the current guest is idle, and the other one comes next if it is not done. -/
def idle (h : Hyp) (e : Exit) : Hyp :=
  let g := h.gs h.cur
  let vuart := match e.poll with
    | some ch => if ch ≠ 0 then g.vuart.rxPush ch else g.vuart
    | none => g.vuart
  let cur := if (h.gs (1 - h.cur)).done then h.cur else 1 - h.cur
  { h.setGuest h.cur { g with vuart := vuart, vcpu := { g.vcpu with elr := g.vcpu.elr + 4 } } with cur := cur }

/-- `EC_IABT | EC_DABT`. -/
def abort (h : Hyp) (e : Exit) : Hyp :=
  match handleMmio h.cur (h.gs h.cur) e with
  | some g => h.setGuest h.cur g
  | none => h.stop

/-- A trap of the current guest. -/
def trap (h : Hyp) (e : Exit) : Hyp :=
  let ec := exceptionClass e
  if ec = 0x16 ∨ ec = 0x17 then h.hypercall e
  else if ec = 0x01 then h.idle e
  else if ec = 0x20 ∨ ec = 0x24 then h.abort e
  else h.stop

/-- The guest has left: its registers are saved and console input is handled. -/
def afterExit (h : Hyp) (e : Exit) : Hyp :=
  let h := { h with cur := h.running }
  (h.setGuest h.cur { h.gs h.cur with vcpu := e.vcpu }).consoleInput e.input

/-- One turn of the loop in `run`. -/
def step (h : Hyp) (e : Exit) : Option Hyp :=
  if (h.gs 0).done ∧ (h.gs 1).done then none
  else
    let h := h.afterExit e
    if e.takesIrq then h.physicalIrq e.iar.toNat else some (h.trap e)

end Hyp

end Koros.Hv
