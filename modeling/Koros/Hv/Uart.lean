import Koros.Lib.Ring
import Koros.Lib.Runs
import Koros.Hv.Guests

/-!
# Input of the virtual UART

`Vuart` of `korhv/src/arch/aarch64/hyp.rs` with its receive buffer as it is, a ring of 256 bytes, and its registers as a
guest reads them. The hypervisor pushes bytes at any time; a guest reads registers at any time.

- `rxPush_view`, `read_view`: the ring refines the queue of `Guests`;
- `run_ordered`: a guest that reads the data register only when a byte is there gets the accepted bytes in order;
- `flags_rxfe`: bit 4 of `UARTFR`, which says that the receive buffer is empty, is always set;
- **`uart_delivers_iff`**: when the input reaches a guest that waits for the bit.
-/
set_option autoImplicit false

namespace Koros.Hv

open Koros.Lib

/-! ## The registers -/

structure Uart where
  cr : BitVec 32
  lcrH : BitVec 32
  imsc : BitVec 32
  ibrd : BitVec 32
  ifls : BitVec 32
  txris : Bool
  /-- `rxbuf`, `rxlen` and `rxhead`; `& 0xFF` is the remainder by 256. -/
  rx : Ring Byte 256

namespace Uart

def new : Uart := ⟨0, 0, 0, 0, 0, false, .empty 0 (by decide)⟩

def rxPush (u : Uart) (ch : Byte) : Uart := { u with rx := u.rx.push ch }

def rxPop (u : Uart) : Option Byte × Uart := (u.rx.pop.1, { u with rx := u.rx.pop.2 })

def hasRx (u : Uart) : Bool := 0 < u.rx.len

/-- `UARTRIS`. -/
def ris (u : Uart) : BitVec 32 := (if u.hasRx then 1 else 0) ||| (if u.txris then 2 else 0)

/-- `uart_read`. -/
def read (u : Uart) (off : Nat) : BitVec 32 × Uart :=
  match off with
  | 0x000 => ((u.rxPop.1.map (·.setWidth 32)).getD 0, u.rxPop.2)
  | 0x018 => (if u.hasRx then 0x10 else 0x90, u)
  | 0x028 => (u.ibrd, u)
  | 0x02c => (u.lcrH, u)
  | 0x030 => (u.cr, u)
  | 0x034 => (u.ifls, u)
  | 0x038 => (u.ris, u)
  | 0x03c => (u.ris &&& u.imsc, u)
  | 0x044 => (u.imsc, u)
  | 0xfe0 => (0x11, u)
  | 0xfe4 => (0x10, u)
  | 0xfe8 => (0x14, u)
  | 0xff0 => (0x0d, u)
  | 0xff4 => (0xf0, u)
  | 0xff8 => (0x05, u)
  | 0xffc => (0xb1, u)
  | _ => (0, u)

/-- The same UART with the queue of the bytes in the ring. -/
def view (u : Uart) : Vuart := ⟨u.cr, u.lcrH, u.imsc, u.ibrd, u.ifls, u.txris, u.rx.toList⟩

variable {u : Uart}

theorem rxPush_view (u : Uart) (ch : Byte) : (u.rxPush ch).view = u.view.rxPush ch := by
  have hlen : u.view.rx.length = u.rx.len := u.rx.length_toList
  rw [Vuart.rxPush, hlen]
  unfold view rxPush
  rw [Ring.toList_push]
  split
  · rfl
  · rfl

theorem rxPop_view (u : Uart) : u.rxPop.1 = u.view.rxPop.1 ∧ u.rxPop.2.view = u.view.rxPop.2 := by
  obtain ⟨hhead, htail⟩ := u.rx.toList_pop
  refine ⟨hhead, ?_⟩
  unfold view rxPop Vuart.rxPop
  rw [htail]

theorem hasRx_view (u : Uart) : u.hasRx = u.view.hasRx := by
  have hnil : u.view.rx = [] ↔ u.rx.len = 0 := Ring.toList_eq_nil_iff
  unfold hasRx Vuart.hasRx
  cases hrx : u.view.rx with
  | nil => simp [hnil.1 hrx]
  | cons b rest =>
    have hne : u.rx.len ≠ 0 := fun h => by simp [hnil.2 h] at hrx
    simp [Nat.pos_of_ne_zero hne]

theorem ris_view (u : Uart) : u.ris = u.view.ris := by
  rw [ris, Vuart.ris, hasRx_view]
  rfl

/-- Registers other than the data register are read without an effect. -/
theorem read_snd {off : Nat} (h : off ≠ 0) : (u.read off).2 = u := by
  unfold read
  split
  · exact absurd rfl h
  all_goals rfl

/-- **The ring refines the queue**: a guest reads the same from both. -/
theorem read_view (u : Uart) (off : Nat) : (u.read off).1 = (u.view.read off).1 ∧ (u.read off).2.view = (u.view.read off).2 := by
  obtain ⟨hpop, hrest⟩ := u.rxPop_view
  unfold read
  split
  · refine ⟨?_, hrest⟩
    rw [hpop]
    rfl
  · refine ⟨?_, rfl⟩
    rw [hasRx_view]
    rfl
  · exact ⟨rfl, rfl⟩
  · exact ⟨rfl, rfl⟩
  · exact ⟨rfl, rfl⟩
  · exact ⟨rfl, rfl⟩
  · exact ⟨u.ris_view, rfl⟩
  · refine ⟨?_, rfl⟩
    rw [ris_view]
    rfl
  all_goals first | exact ⟨rfl, rfl⟩ | skip
  next h₁ h₂ h₃ h₄ h₅ h₆ h₇ h₈ h₉ h₁₀ h₁₁ h₁₂ h₁₃ h₁₄ h₁₅ h₁₆ =>
    unfold Vuart.read
    split
    all_goals first | exact ⟨rfl, rfl⟩ | contradiction

/-- Bit 4 of `UARTFR` as the hypervisor tests it on the physical UART. -/
def rxEmpty (u : Uart) : Bool := (u.read 0x018).1 &&& 0x10 ≠ 0

/-- The bit is always set. -/
theorem flags_rxfe (u : Uart) : u.rxEmpty = true := by
  have hflags : (u.read 0x018).1 = if u.hasRx then 0x10 else 0x90 := rfl
  rw [rxEmpty, hflags]
  split
  · decide
  · decide

end Uart

/-! ## Runs -/

/-- The UART of a guest, with what went in and out. -/
structure UartWorld where
  uart : Uart
  /-- The bytes that `rx_push` stored. -/
  accepted : List Byte
  /-- The bytes that the guest read from `UARTDR`. -/
  got : List Byte
  /-- How many bytes were queued when one was dropped. -/
  lostAt : List Nat

inductive UartEvent where
  /-- The hypervisor has a byte for the guest. -/
  | push (ch : Byte)
  /-- The guest reads a register. -/
  | read (off : Nat)
deriving DecidableEq, Repr

namespace UartWorld

def boot : UartWorld := ⟨.new, [], [], []⟩

def step (w : UartWorld) : UartEvent → Option UartWorld
  | .push ch =>
    let u := w.uart.rxPush ch
    if u.rx.len = w.uart.rx.len then some { w with uart := u, lostAt := w.lostAt ++ [w.uart.rx.len] }
    else some { w with uart := u, accepted := w.accepted ++ [ch] }
  | .read off =>
    let (value, u) := w.uart.read off
    some { w with uart := u, got := if off = 0 then w.got ++ [value.setWidth 8] else w.got }

/-- The guest reads `UARTDR` only when bit 4 of `UARTFR` is clear. -/
def Polite (w : UartWorld) (e : UartEvent) : Prop := e = .read 0 → w.uart.rxEmpty = false

/-- The guest reads `UARTDR` only when a byte is there. -/
def Ready (w : UartWorld) (e : UartEvent) : Prop := e = .read 0 → w.uart.rx.toList ≠ []

/-- The bytes that were read and those that are queued are the accepted ones in order, and bytes were dropped only with
256 in the queue. -/
structure Ordered (w : UartWorld) : Prop where
  order : w.got ++ w.uart.rx.toList = w.accepted
  drops : ∀ n ∈ w.lostAt, n = 256

/-- And a queued byte is shown to the guest. -/
structure Delivers (w : UartWorld) : Prop extends Ordered w where
  flag : w.uart.rx.toList ≠ [] → w.uart.rxEmpty = false

variable {w w' : UartWorld} {e : UartEvent}

theorem boot_ordered : boot.Ordered := ⟨rfl, nofun⟩

/-- A push, by what it does to the ring. -/
theorem step_push (w : UartWorld) (ch : Byte) :
    (w.uart.rx.len = 256 ∧ w.step (.push ch) = some { w with lostAt := w.lostAt ++ [256] }) ∨
    (w.uart.rx.len < 256 ∧ w.step (.push ch) = some { w with uart := w.uart.rxPush ch, accepted := w.accepted ++ [ch] } ∧
      (w.uart.rxPush ch).rx.toList = w.uart.rx.toList ++ [ch]) := by
  have hlen := w.uart.rx.len_push ch
  have hlist := w.uart.rx.toList_push ch
  by_cases h : w.uart.rx.len < 256
  · rw [if_pos h] at hlen hlist
    refine .inr ⟨h, ?_, hlist⟩
    unfold step
    dsimp only
    rw [if_neg]
    show (w.uart.rx.push ch).len ≠ w.uart.rx.len
    omega
  · rw [if_neg h] at hlen
    have hfull : w.uart.rx.len = 256 := Nat.le_antisymm w.uart.rx.len_le (Nat.not_lt.1 h)
    have hsame : w.uart.rxPush ch = w.uart := by
      unfold Uart.rxPush Ring.push
      rw [dif_neg h]
    refine .inl ⟨hfull, ?_⟩
    unfold step
    dsimp only
    rw [hsame, if_pos rfl, hfull]

theorem step_ordered (h : w.Ordered) (hready : w.Ready e) (hs : w.step e = some w') : w'.Ordered := by
  cases e with
  | push ch =>
    rcases w.step_push ch with ⟨-, hpush⟩ | ⟨-, hpush, hlist⟩
    · obtain rfl := Option.some.inj (hs.symm.trans hpush)
      refine ⟨h.order, fun n hn => ?_⟩
      rcases List.mem_append.1 hn with hn | hn
      · exact h.drops n hn
      · exact List.mem_singleton.1 hn
    · obtain rfl := Option.some.inj (hs.symm.trans hpush)
      refine ⟨?_, h.drops⟩
      show w.got ++ (w.uart.rxPush ch).rx.toList = w.accepted ++ [ch]
      rw [hlist, ← List.append_assoc, h.order]
  | read off =>
    cases hs
    by_cases hoff : off = 0
    · subst hoff
      refine ⟨?_, h.drops⟩
      obtain ⟨hhead, htail⟩ := w.uart.rx.toList_pop
      cases hlist : w.uart.rx.toList with
      | nil => exact absurd hlist (hready rfl)
      | cons b rest =>
        rw [hlist, List.head?_cons] at hhead
        rw [hlist, List.tail_cons] at htail
        show w.got ++ [((w.uart.rx.pop.1.map (·.setWidth 32)).getD (0 : BitVec 32)).setWidth 8] ++ w.uart.rx.pop.2.toList = _
        have hbyte : (BitVec.setWidth 32 b).setWidth 8 = b := by
          rw [BitVec.setWidth_setWidth_of_le _ (by decide), BitVec.setWidth_eq]
        rw [hhead, htail, Option.map_some, Option.getD_some, hbyte, List.append_assoc, List.singleton_append, ← hlist,
          h.order]
    · have hsame := w.uart.read_snd hoff
      refine ⟨?_, h.drops⟩
      show (if off = 0 then _ else w.got) ++ (w.uart.read off).2.rx.toList = w.accepted
      rw [if_neg hoff, hsame, h.order]

/-- **A guest that reads the data register only when a byte is there** gets the accepted bytes in order. -/
theorem run_ordered (es : List UartEvent) (hready : Meets step Ready boot es) : Visits step Ordered boot es :=
  Visits.of_step (fun _ _ _ h hready hs => step_ordered h hready hs) boot_ordered hready

/-- A guest that waits for bit 4 never reads the data register. -/
theorem ready_of_polite (h : w.Polite e) : w.Ready e := by
  intro he
  have hclear := h he
  rw [w.uart.flags_rxfe] at hclear
  cases hclear

/-- The queue is shown exactly when it is empty. -/
theorem delivers_iff (h : w.Ordered) : w.Delivers ↔ w.uart.rx.toList = [] := by
  constructor
  · intro hd
    by_contra hne
    have hclear := hd.flag hne
    rw [w.uart.flags_rxfe] at hclear
    cases hclear
  · exact fun hnil => ⟨h, fun hne => absurd hnil hne⟩

/-- A step of a guest that waits leaves a byte that is queued where it is, and queues the first one pushed. -/
theorem step_queue (h : w.Polite e) (hs : w.step e = some w') :
    w'.uart.rx.toList = [] ↔ w.uart.rx.toList = [] ∧ ∀ ch, e ≠ .push ch := by
  cases e with
  | push ch =>
    refine iff_of_false ?_ fun hno => hno.2 ch rfl
    rcases w.step_push ch with ⟨hfull, hpush⟩ | ⟨-, hpush, hlist⟩
    · obtain rfl := Option.some.inj (hs.symm.trans hpush)
      exact fun hnil => absurd (Ring.toList_eq_nil_iff.1 hnil) (by rw [hfull]; decide)
    · obtain rfl := Option.some.inj (hs.symm.trans hpush)
      rw [hlist]
      exact List.append_ne_nil_of_right_ne_nil _ (List.cons_ne_nil _ _)
  | read off =>
    have hoff : off ≠ 0 := by
      rintro rfl
      have hclear := h rfl
      rw [w.uart.flags_rxfe] at hclear
      cases hclear
    cases hs
    show (w.uart.read off).2.rx.toList = [] ↔ _
    rw [w.uart.read_snd hoff]
    simp

/-- Along a run. -/
theorem visits_delivers_iff (es : List UartEvent) : ∀ {w : UartWorld}, w.Ordered → w.uart.rx.toList = [] →
    Meets step Polite w es → (Visits step Delivers w es ↔ ∀ ch, .push ch ∉ es) := by
  induction es with
  | nil =>
    intro w h hnil _
    exact iff_of_true ((delivers_iff h).2 hnil) nofun
  | cons e es ih =>
    intro w h hnil hpolite
    obtain ⟨w₁, hs⟩ : ∃ w₁, w.step e = some w₁ := by
      cases e with
      | push ch =>
        rcases w.step_push ch with ⟨-, hpush⟩ | ⟨-, hpush, -⟩
        · exact ⟨_, hpush⟩
        · exact ⟨_, hpush⟩
      | read off => exact ⟨_, rfl⟩
    have h₁ := step_ordered h (ready_of_polite hpolite.1) hs
    have hqueue := step_queue hpolite.1 hs
    have htail : (∀ w', w.step e = some w' → Visits step Delivers w' es) ↔ Visits step Delivers w₁ es :=
      ⟨fun hv => hv w₁ hs, fun hv w' hs' => Option.some.inj (hs.symm.trans hs') ▸ hv⟩
    rw [Visits, htail]
    by_cases hpush : ∃ ch, e = .push ch
    · obtain ⟨ch, rfl⟩ := hpush
      refine iff_of_false (fun hv => ?_) fun hno => hno ch List.mem_cons_self
      -- the byte stays in the queue, behind a flag that says the queue is empty
      have hnow : w₁.Delivers := by
        cases es with
        | nil => exact hv.2
        | cons e' es => exact hv.2.1
      exact (hqueue.1 ((delivers_iff h₁).1 hnow)).2 ch rfl
    · have hnil₁ := hqueue.2 ⟨hnil, fun ch he => hpush ⟨ch, he⟩⟩
      rw [ih h₁ hnil₁ (hpolite.2 w₁ hs)]
      have hd := (delivers_iff h).2 hnil
      constructor
      · intro hv ch hmem
        rcases List.mem_cons.1 hmem with rfl | hmem
        · exact hpush ⟨ch, rfl⟩
        · exact hv.2 ch hmem
      · exact fun hno => ⟨hd, fun ch hmem => hno ch (List.mem_cons_of_mem _ hmem)⟩

end UartWorld

/-- **Input reaches a guest that waits for bit 4 of `UARTFR`** exactly in the runs in which there is none: from the first
byte on, the byte stays in the queue and the guest never reads it. -/
theorem uart_delivers_iff (es : List UartEvent) (hpolite : Meets UartWorld.step UartWorld.Polite .boot es) :
    Visits UartWorld.step UartWorld.Delivers .boot es ↔ ∀ ch, .push ch ∉ es :=
  UartWorld.visits_delivers_iff es UartWorld.boot_ordered rfl hpolite

/-- A guest that reads the flags twice. -/
theorem uart_delivers_iff_idle : Meets UartWorld.step UartWorld.Polite .boot [.read 0x018, .read 0x038] ∧
    Visits UartWorld.step UartWorld.Delivers .boot [.read 0x018, .read 0x038] := by
  have hpolite : Meets UartWorld.step UartWorld.Polite .boot [.read 0x018, .read 0x038] :=
    ⟨nofun, fun _ _ => ⟨nofun, fun _ _ => trivial⟩⟩
  exact ⟨hpolite, (uart_delivers_iff _ hpolite).2 (by simp)⟩

/-- One byte for a guest that looks at the flags: it is queued, and bit 4 says that there is none. -/
theorem uart_hides_byte : Meets UartWorld.step UartWorld.Polite .boot [.push 65, .read 0x018] ∧
    ¬ Visits UartWorld.step UartWorld.Delivers .boot [.push 65, .read 0x018] := by
  refine ⟨⟨nofun, fun _ _ => ⟨nofun, fun _ _ => trivial⟩⟩, fun hv => ?_⟩
  have hflag := (hv.2 _ rfl).1.flag
  revert hflag
  decide

end Koros.Hv
