import Koros.Lib.Runs
import Koros.Hv.Guests

/-!
# Who gets a device's interrupt

The device of guest `g` raises the physical interrupt `48 + g` and both guests know it as interrupt 48. It reaches a
virtual GIC at two places: the wait after a notify, which runs for the guest that owns the device, and the physical
interrupt that ends a guest's time, which goes to whichever guest is current.

- `step_owned`: a turn in which no device's interrupt is taken while the other guest runs makes the interrupt pending
  for its owner and for nobody else, and takes it from a guest only by that guest's own access;
- `device_interrupts_owned`: so does every run of such turns;
- `interrupt_goes_to_running_guest`: guest 0 waits for its device, guest 1 runs, and guest 1 gets the interrupt.
-/
set_option autoImplicit false

namespace Koros.Hv

open Koros.Lib

local instance two_sources : NeZero 2 := ⟨by decide⟩

/-! ## Pending bits -/

namespace Vgic

variable (v : Vgic) (off : Nat) (val : BitVec 32) (j : Nat)

theorem pending_inject (irq : Nat) :
    testBitAt (v.inject irq).pending j = if j = irq then true else testBitAt v.pending j :=
  testBitAt_writeBitAt (by decide) true v.pending irq j

theorem testBitAt_update (ws : Nat → BitVec 32) (i : Nat) (x : BitVec 32) :
    testBitAt (Function.update ws i x) j = if j / 32 = i then x.getLsbD (j % 32) else testBitAt ws j := by
  unfold testBitAt
  by_cases hi : j / 32 = i
  · simp [hi]
  · simp [hi]

theorem pending_gicdWrite :
    testBitAt (v.gicdWrite off val).pending j =
      if 0x200 ≤ off ∧ off ≤ 0x21c ∧ j / 32 = (off - 0x200) / 4 then testBitAt v.pending j || val.getLsbD (j % 32)
      else if 0x280 ≤ off ∧ off ≤ 0x29c ∧ j / 32 = (off - 0x280) / 4 then
        testBitAt v.pending j && !val.getLsbD (j % 32)
      else testBitAt v.pending j := by
  have hj : j % 32 < 32 := Nat.mod_lt _ (by decide)
  unfold gicdWrite
  split_ifs <;> (try omega) <;> simp only [testBitAt_update] <;> (try simp) <;> simp_all [testBitAt]

/-- The interrupt that is acknowledged is one of the word it was found in. -/
theorem highest_spec {i irq : Nat} (h : v.highest = some (i, irq)) : irq / 32 = i ∧ i < 8 := by
  obtain ⟨k, hk, hf⟩ := List.exists_of_findSome?_eq_some h
  have hk8 : k < 8 := List.mem_range.1 hk
  simp only at hf
  split at hf
  · rename_i hm
    cases hf
    have hlt : (v.pending i &&& v.enabled i).ctz < 32 := BitVec.ctz_lt_iff_ne_zero.2 hm
    have : (v.pending i &&& v.enabled i).ctz.toNat < 32 := by simpa [BitVec.lt_def] using hlt
    exact ⟨by omega, hk8⟩
  · cases hf

theorem pending_iar : testBitAt v.iar.2.pending j = (testBitAt v.pending j && !decide (v.highest = some (j / 32, j))) := by
  unfold iar
  cases hh : v.highest with
  | none => simp
  | some p =>
    obtain ⟨i, irq⟩ := p
    obtain ⟨hi, -⟩ := v.highest_spec hh
    have hclear := testBitAt_writeBitAt (by decide) false v.pending irq j
    simp only [writeBitAt, hi, Bool.false_eq_true, if_false] at hclear
    rw [hclear]
    by_cases hj : j = irq
    · simp [hj, hi]
    · simp [hj, Ne.symm hj]

theorem iar_of_highest {i irq : Nat} (h : v.highest = some (i, irq)) : v.iar.1 = BitVec.ofNat 32 irq := by
  simp [iar, h]

theorem pending_giccWrite : (v.giccWrite off val).pending = v.pending := by
  unfold giccWrite eoir
  split <;> (try split) <;> rfl

theorem giccRead_of_ne {off : Nat} (h : off ≠ 0x00c) : (v.giccRead off).2 = v := by
  unfold giccRead
  split <;> simp_all

end Vgic

theorem Vuart.pending_write (u : Vuart) (off : Nat) (val : BitVec 32) (v : Vgic) {j : Nat} (hj : j ≠ 33) :
    testBitAt (u.write off val v).2.pending j = testBitAt v.pending j := by
  unfold Vuart.write
  split <;> (try rfl)
  simp only
  split_ifs <;> simp [Vgic.pending_inject, hj]

/-! ## One access -/

/-- Interrupt `irq` is pending in the guest's virtual GIC. -/
def Guest.pends (g : Guest) (irq : Nat) : Bool := testBitAt g.vgic.pending irq

namespace Exit

/-- The exit is a trapped access with a valid syndrome. -/
def Accesses (e : Exit) : Prop :=
  e.takesIrq = false ∧ (Hyp.exceptionClass e = 0x20 ∨ Hyp.exceptionClass e = 0x24) ∧ e.isv = true

/-- The exit is a write of a word of a bit register of the distributor, with the bit of interrupt 48 set. -/
def WritesBit (e : Exit) (reg : Nat) : Prop :=
  e.Accesses ∧ e.wnr = true ∧ gicdBase + reg ≤ e.ipa ∧ e.ipa < gicdBase + reg + 4 ∧ e.val.getLsbD 16 = true

/-- A write to `GICD_ICPENDR1` that clears interrupt 48. -/
def Clears (e : Exit) : Prop := e.WritesBit 0x284

/-- A write to `GICD_ISPENDR1` that sets interrupt 48. -/
def Sets (e : Exit) : Prop := e.WritesBit 0x204

/-- A read of `GICC_IAR` that returns 48 to a guest with virtual GIC `v`. -/
def Acknowledges (e : Exit) (v : Vgic) : Prop :=
  e.Accesses ∧ e.wnr = false ∧ e.ipa = giccBase + 0x00c ∧ v.iar.1 = 48

/-- A notify by guest `g` that is forwarded, and after which the wait sees the interrupt of the device. -/
def Notified (e : Exit) (g : Fin 2) : Prop :=
  e.Accesses ∧ e.wnr = true ∧ e.ipa = virtioBase + 0x050 ∧ notifyAccepted (guestManifests g) e = true ∧
    spiSeen g e = true

/-- The physical interrupt of guest `g`'s device. -/
def Delivers (e : Exit) (g : Fin 2) : Prop := e.takesIrq = true ∧ e.iar.toNat = 48 + g.val

end Exit

section Access

variable {gid : Fin 2} {g g' : Guest} {e : Exit}

/-- What an access makes of the virtual GIC: one case for each device that can change it. -/
inductive GicAccess (gid : Fin 2) (g : Guest) (e : Exit) : Vgic → Prop
  | distributor (off : Nat) (addr : e.ipa = gicdBase + off) (w : e.wnr = true) :
    GicAccess gid g e (g.vgic.gicdWrite off e.val)
  | interfaceWrite (off : Nat) : GicAccess gid g e (g.vgic.giccWrite off e.val)
  | interfaceRead (off : Nat) (addr : e.ipa = giccBase + off) (w : e.wnr = false) :
    GicAccess gid g e (g.vgic.giccRead off).2
  | uart (off : Nat) : GicAccess gid g e (g.vuart.write off e.val g.vgic).2
  | notify (addr : e.ipa = virtioBase + 0x050) (w : e.wnr = true)
    (accepted : notifyAccepted (guestManifests gid) e = true) :
    GicAccess gid g e (if spiSeen gid e then g.vgic.inject 48 else g.vgic)
  | other : GicAccess gid g e g.vgic

theorem virtioWrite_gic {v : Vgic} {off : Nat} (h : virtioWrite gid g.vgic e off = some v)
    (haddr : e.ipa = virtioBase + off) (hw : e.wnr = true) : GicAccess gid g e v := by
  unfold virtioWrite at h
  split at h
  · rename_i hoff
    subst hoff
    split at h
    · rename_i haccepted
      cases h
      exact .notify haddr hw haccepted
    · cases h
  · split at h
    · obtain ⟨pfn, -, rfl⟩ := Option.map_eq_some_iff.1 h
      exact .other
    · cases h
      exact .other

theorem mmioAccess_gic (h : mmioAccess gid g e = some g') : GicAccess gid g e g'.vgic := by
  -- An offset that is a variable keeps the register maps from being evaluated at `e.ipa - base`.
  have hoffset : ∀ base, base ≤ e.ipa → ∃ off, e.ipa - base = off ∧ e.ipa = base + off :=
    fun base hb => ⟨_, rfl, by omega⟩
  unfold mmioAccess at h
  simp only at h
  split at h
  · rename_i hr
    obtain ⟨off, hoff, haddr⟩ := hoffset _ hr.1
    rw [hoff] at h
    split at h <;> cases h
    · exact .distributor off haddr ‹_›
    · exact .other
  split at h
  · rename_i hr
    obtain ⟨off, hoff, haddr⟩ := hoffset _ hr.1
    rw [hoff] at h
    split at h <;> cases h
    · exact .interfaceWrite off
    · exact .interfaceRead off haddr (by simpa using ‹¬e.wnr = true›)
  split at h
  · rename_i hr
    obtain ⟨off, hoff, -⟩ := hoffset _ hr.1
    rw [hoff] at h
    split at h <;> cases h
    · exact .uart off
    · exact .other
  split at h
  · rename_i hr
    obtain ⟨off, hoff, haddr⟩ := hoffset _ hr.1
    rw [hoff] at h
    split at h
    · rename_i hw
      obtain ⟨v, hv, rfl⟩ := Option.map_eq_some_iff.1 h
      exact virtioWrite_gic hv haddr hw
    · cases h
      exact .other
  split at h
  · split at h <;> cases h <;> exact .other
  · split at h <;> cases h
    exact .other

variable {v : Vgic}

/-- Interrupt 48 becomes pending by an access only if the guest sets it or its device is seen to raise it. -/
theorem GicAccess.raises (h : GicAccess gid g e v) (ha : e.Accesses) (hold : testBitAt g.vgic.pending 48 = false)
    (hnew : testBitAt v.pending 48 = true) : e.Sets ∨ e.Notified gid := by
  cases h with
  | distributor off addr w =>
    rw [Vgic.pending_gicdWrite, hold] at hnew
    split_ifs at hnew with hset hclear
    · exact .inl ⟨ha, w, by omega, by omega, by simpa using hnew⟩
    · simp at hnew
  | interfaceWrite off => simp [Vgic.pending_giccWrite, hold] at hnew
  | interfaceRead off addr w =>
    by_cases hoff : off = 0x00c
    · subst hoff
      simp [Vgic.giccRead, Vgic.pending_iar, hold] at hnew
    · simp [Vgic.giccRead_of_ne _ hoff, hold] at hnew
  | uart off => simp [Vuart.pending_write, hold] at hnew
  | notify addr w accepted =>
    by_cases hseen : spiSeen gid e = true
    · exact .inr ⟨ha, w, addr, accepted, hseen⟩
    · simp [hseen, hold] at hnew
  | other => simp [hold] at hnew

/-- An access takes interrupt 48 away only if the guest acknowledges or clears it. -/
theorem GicAccess.drops (h : GicAccess gid g e v) (ha : e.Accesses) (hold : testBitAt g.vgic.pending 48 = true)
    (hnew : testBitAt v.pending 48 = false) : e.Acknowledges g.vgic ∨ e.Clears := by
  cases h with
  | distributor off addr w =>
    rw [Vgic.pending_gicdWrite, hold] at hnew
    split_ifs at hnew with hset hclear
    · simp at hnew
    · exact .inr ⟨ha, w, by omega, by omega, by simpa using hnew⟩
  | interfaceWrite off => simp [Vgic.pending_giccWrite, hold] at hnew
  | interfaceRead off addr w =>
    by_cases hoff : off = 0x00c
    · subst hoff
      have hhighest : g.vgic.highest = some (1, 48) := by simpa [Vgic.giccRead, Vgic.pending_iar, hold] using hnew
      exact .inl ⟨ha, w, addr, g.vgic.iar_of_highest hhighest⟩
    · simp [Vgic.giccRead_of_ne _ hoff, hold] at hnew
  | uart off => simp [Vuart.pending_write, hold] at hnew
  | notify addr w accepted =>
    by_cases hseen : spiSeen gid e = true <;> simp [hseen, Vgic.pending_inject, hold] at hnew
  | other => simp [hold] at hnew

theorem mmioAccess_notified (h : e.Notified gid) :
    mmioAccess gid g e = some { g with vgic := g.vgic.inject 48 } := by
  obtain ⟨-, hw, haddr, haccepted, hseen⟩ := h
  have hwrite : virtioWrite gid g.vgic e 0x050 = some (g.vgic.inject 48) := by simp [virtioWrite, haccepted, hseen]
  simp [mmioAccess, haddr, hw, gicdBase, giccBase, uartBase, virtioBase, hwrite]

end Access

/-! ## One turn -/

namespace Hyp

variable {h h' : Hyp} {e : Exit} {g : Fin 2} {irq : Nat}

theorem consoleInput_cur (input : Option Byte) : (h.consoleInput input).cur = h.cur := by
  unfold consoleInput
  split
  · rfl
  · simp only
    split <;> rfl

/-- Console input makes no interrupt but the UART's pending. -/
theorem consoleInput_pends (input : Option Byte) (hirq : irq ≠ 33) :
    ((h.consoleInput input).gs g).pends irq = (h.gs g).pends irq := by
  unfold consoleInput
  split
  · rfl
  simp only
  split
  · rfl
  · rename_i guest byte _
    by_cases hg : g = guest
    · subst hg
      simp [setGuest, Guest.pends, Vgic.pending_inject, hirq]
    · simp [setGuest, hg]
  · rfl

theorem afterExit_cur : (h.afterExit e).cur = h.running := consoleInput_cur e.input

theorem afterExit_pends (hirq : irq ≠ 33) : ((h.afterExit e).gs g).pends irq = (h.gs g).pends irq := by
  unfold afterExit
  simp only
  rw [consoleInput_pends _ hirq]
  by_cases hg : g = h.running
  · subst hg
    simp [setGuest, Guest.pends]
  · simp [setGuest, hg]

theorem setGuest_vgic {new : Guest} (hv : new.vgic = (h.gs h.cur).vgic) :
    ((h.setGuest h.cur new).gs g).vgic = (h.gs g).vgic := by
  by_cases hg : g = h.cur
  · subst hg
    simpa [setGuest] using hv
  · simp [setGuest, hg]

theorem stop_vgic : (h.stop.gs g).vgic = (h.gs g).vgic := setGuest_vgic rfl

theorem hypercall_vgic : ((h.hypercall e).gs g).vgic = (h.gs g).vgic := by
  unfold hypercall
  simp only
  split
  · exact setGuest_vgic rfl
  · split
    · exact setGuest_vgic rfl
    · exact stop_vgic

theorem idle_vgic : ((h.idle e).gs g).vgic = (h.gs g).vgic := setGuest_vgic rfl

/-- An abort changes a virtual GIC only by an access of the current guest. -/
theorem abort_vgic (h : Hyp) (e : Exit) (g : Fin 2) : ((h.abort e).gs g).vgic = (h.gs g).vgic ∨
    g = h.cur ∧ e.isv = true ∧ GicAccess g (h.gs g) e ((h.abort e).gs g).vgic := by
  unfold abort handleMmio
  split
  · rename_i g' hg'
    split at hg'
    · rename_i hisv
      obtain ⟨g₁, hg₁, rfl⟩ := Option.map_eq_some_iff.1 hg'
      by_cases hg : g = h.cur
      · subst hg
        refine .inr ⟨rfl, hisv, ?_⟩
        simpa [setGuest] using mmioAccess_gic hg₁
      · exact .inl (by simp [setGuest, hg])
    · cases hg'
  · exact .inl stop_vgic

/-- So does a trap. -/
theorem trap_vgic (h : Hyp) (e : Exit) (g : Fin 2) : ((h.trap e).gs g).vgic = (h.gs g).vgic ∨
    g = h.cur ∧ (exceptionClass e = 0x20 ∨ exceptionClass e = 0x24) ∧ e.isv = true ∧
      GicAccess g (h.gs g) e ((h.trap e).gs g).vgic := by
  unfold trap
  simp only
  split
  · exact .inl hypercall_vgic
  split
  · exact .inl idle_vgic
  split
  · rename_i hec
    obtain hsame | ⟨hg, hisv, hgic⟩ := abort_vgic h e g
    · exact .inl hsame
    · exact .inr ⟨hg, hec, hisv, hgic⟩
  · exact .inl stop_vgic

/-- A notify after which the device is seen to raise its interrupt. -/
theorem trap_notified (hn : e.Notified h.cur) : ((h.trap e).gs h.cur).pends 48 = true := by
  obtain ⟨-, hec, hisv⟩ := hn.1
  have habort : h.trap e = h.abort e := by
    unfold trap
    rcases hec with hec | hec <;> simp [hec]
  rw [habort]
  simp [abort, handleMmio, hisv, mmioAccess_notified hn, setGuest, Guest.pends, Vgic.pending_inject]

/-- The interrupt that a physical interrupt becomes for the current guest. -/
def virq (h : Hyp) (iar : Nat) : Option Nat :=
  if iar = timerIrq then some timerIrq
  else if iar = slicePpi then none
  else if 32 ≤ iar then some (if iar = 49 ∧ h.cur = 1 then 48 else iar)
  else none

theorem inject_pends (j : Nat) :
    ((h.setGuest h.cur { h.gs h.cur with vgic := (h.gs h.cur).vgic.inject irq }).gs g).pends j =
      ((h.gs g).pends j || decide (g = h.cur ∧ irq = j)) := by
  by_cases hg : g = h.cur
  · subst hg
    by_cases hj : j = irq
    · simp [setGuest, Guest.pends, Vgic.pending_inject, hj]
    · simp [setGuest, Guest.pends, Vgic.pending_inject, hj, Ne.symm hj]
  · simp [setGuest, hg]

/-- A physical interrupt makes one interrupt of the current guest pending, or none. -/
theorem physicalIrq_pends {iar : Nat} (hs : h.physicalIrq iar = some h') (j : Nat) :
    (h'.gs g).pends j = ((h.gs g).pends j || decide (g = h.cur ∧ h.virq iar = some j)) := by
  unfold physicalIrq at hs
  unfold virq
  simp only at hs
  split at hs
  · rename_i htimer
    cases hs
    simp [htimer, inject_pends]
  rename_i htimer
  split at hs
  · rename_i hslice
    cases hs
    rw [if_neg htimer, if_pos hslice]
    simp
  rename_i hslice
  split at hs
  · rename_i hspi
    obtain ⟨-, hs⟩ := Option.ite_none_right_eq_some.1 hs
    cases hs
    simp [htimer, hslice, hspi, inject_pends]
  · rename_i hspi
    cases hs
    simp [htimer, hslice, hspi]

/-! ## Ownership -/

/-- What a turn does with the interrupts of the guests' devices. -/
structure Owned (h : Hyp) (e : Exit) (h' : Hyp) : Prop where
  /-- The interrupt of a guest's device becomes pending as interrupt 48 of the guest. -/
  arrives : ∀ g, e.Delivers g ∨ (h.running = g ∧ e.Notified g) → (h'.gs g).pends 48 = true
  /-- Nothing becomes pending for the other guest, apart from the UART's interrupt for a byte of console input. -/
  elsewhere : ∀ g, e.Delivers g ∨ (h.running = g ∧ e.Notified g) →
    ∀ other ≠ g, ∀ irq ≠ 33, (h'.gs other).pends irq = (h.gs other).pends irq
  /-- Interrupt 48 becomes pending for a guest only from its own device or by its own write. -/
  source : ∀ g, (h.gs g).pends 48 = false → (h'.gs g).pends 48 = true →
    e.Delivers g ∨ (h.running = g ∧ (e.Notified g ∨ e.Sets))
  /-- It stays pending until the guest acknowledges it or clears it. -/
  stays : ∀ g, (h.gs g).pends 48 = true → (h'.gs g).pends 48 = false →
    h.running = g ∧ (e.Acknowledges ((h.afterExit e).gs g).vgic ∨ e.Clears)

/-- The turn does not take a device's interrupt while the other guest runs. -/
def Routed (h : Hyp) (e : Exit) : Prop := ∀ g, e.Delivers g → h.running = g

instance : Decidable (h.Routed e) :=
  inferInstanceAs (Decidable (∀ g : Fin 2, e.takesIrq = true ∧ e.iar.toNat = 48 + g.val → h.running = g))

theorem step_cases (hs : h.step e = some h') :
    (e.takesIrq = true ∧ (h.afterExit e).physicalIrq e.iar.toNat = some h') ∨
    (e.takesIrq = false ∧ (h.afterExit e).trap e = h') := by
  unfold step at hs
  split at hs
  · cases hs
  · cases hirq : e.takesIrq with
    | true => exact .inl ⟨rfl, by simpa [hirq] using hs⟩
    | false => exact .inr ⟨rfl, by simpa [hirq] using hs⟩

/-- In a turn that is routed, interrupt 48 is what the physical interrupt becomes exactly if the device of the running
guest raised it. -/
theorem virq_iff (hr : h.Routed e) (hirq : e.takesIrq = true) :
    (h.afterExit e).virq e.iar.toNat = some 48 ↔ e.Delivers h.running := by
  have hd : ∀ g : Fin 2, e.Delivers g ↔ e.iar.toNat = 48 + g.val := fun g => by simp [Exit.Delivers, hirq]
  have hrun : ∀ g : Fin 2, e.iar.toNat = 48 + g.val → h.running = g := fun g hg => hr g ((hd g).2 hg)
  rw [hd]
  unfold virq
  rw [afterExit_cur]
  constructor
  · intro hv
    split_ifs at hv with htimer hslice hspi hone
    · simp [timerIrq] at hv
    · simpa [hone.2] using hone.1
    · have hiar : e.iar.toNat = 48 := by simpa using hv
      rw [hrun 0 (by simpa using hiar)]
      simpa using hiar
  · intro hiar
    have hlt := h.running.isLt
    have hcases : h.running = 0 ∨ h.running = 1 := by omega
    rcases hcases with hg | hg <;> simp [hg, hiar, timerIrq, slicePpi]

/-- A guest that does not run gets no interrupt but the UART's. -/
theorem step_elsewhere (hs : h.step e = some h') (hg : g ≠ h.running) (hirq : irq ≠ 33) :
    (h'.gs g).pends irq = (h.gs g).pends irq := by
  have hafter : ((h.afterExit e).gs g).pends irq = (h.gs g).pends irq := afterExit_pends hirq
  rw [← hafter]
  rcases step_cases hs with ⟨-, hs⟩ | ⟨-, hs⟩
  · simp [physicalIrq_pends hs, afterExit_cur, hg]
  · subst hs
    rcases trap_vgic (h.afterExit e) e g with hsame | ⟨hcur, -⟩
    · simp [Guest.pends, hsame]
    · exact absurd (hcur.trans afterExit_cur) hg

/-- Where the interrupt of a device comes from, it becomes pending. -/
theorem step_arrives (hr : h.Routed e) (hs : h.step e = some h')
    (hg : e.Delivers h.running ∨ e.Notified h.running) : (h'.gs h.running).pends 48 = true := by
  rcases step_cases hs with ⟨hirq, hs⟩ | ⟨hirq, hs⟩
  · rcases hg with hd | hn
    · simp [physicalIrq_pends hs, afterExit_cur, (virq_iff hr hirq).2 hd]
    · exact absurd hirq (by simp [hn.1.1])
  · rcases hg with hd | hn
    · exact absurd hirq (by simp [hd.1])
    · subst hs
      rw [← afterExit_cur (e := e)] at hn ⊢
      exact trap_notified hn

/-- Interrupt 48 becomes pending for the guest that runs from its device or by its own write. -/
theorem step_source (hr : h.Routed e) (hs : h.step e = some h') (hold : (h.gs h.running).pends 48 = false)
    (hnew : (h'.gs h.running).pends 48 = true) : e.Delivers h.running ∨ e.Notified h.running ∨ e.Sets := by
  have hafter : ((h.afterExit e).gs h.running).pends 48 = false := (afterExit_pends (by decide)).trans hold
  rcases step_cases hs with ⟨hirq, hs⟩ | ⟨hirq, hs⟩
  · rw [physicalIrq_pends hs, hafter] at hnew
    have hvirq : (h.afterExit e).virq e.iar.toNat = some 48 := by simpa [afterExit_cur] using hnew
    exact .inl ((virq_iff hr hirq).1 hvirq)
  · subst hs
    rcases trap_vgic (h.afterExit e) e h.running with hsame | ⟨-, hec, hisv, hgic⟩
    · simp only [Guest.pends, hsame] at hnew hafter
      simp [hafter] at hnew
    · exact .inr (hgic.raises ⟨hirq, hec, hisv⟩ hafter hnew).symm

/-- Interrupt 48 stays pending for the guest that runs until it acknowledges or clears it. -/
theorem step_stays (hs : h.step e = some h') (hold : (h.gs h.running).pends 48 = true)
    (hnew : (h'.gs h.running).pends 48 = false) :
    e.Acknowledges ((h.afterExit e).gs h.running).vgic ∨ e.Clears := by
  have hafter : ((h.afterExit e).gs h.running).pends 48 = true := (afterExit_pends (by decide)).trans hold
  rcases step_cases hs with ⟨-, hs⟩ | ⟨hirq, hs⟩
  · simp [physicalIrq_pends hs, hafter] at hnew
  · subst hs
    rcases trap_vgic (h.afterExit e) e h.running with hsame | ⟨-, hec, hisv, hgic⟩
    · simp only [Guest.pends, hsame] at hnew hafter
      simp [hafter] at hnew
    · exact hgic.drops ⟨hirq, hec, hisv⟩ hafter hnew

/-- **A turn that is routed keeps the interrupts of the devices with their guests.** -/
theorem step_owned (hr : h.Routed e) (hs : h.step e = some h') : h.Owned e h' := by
  -- A change of interrupt 48 is one of the guest that runs.
  have hrunning : ∀ g, (h'.gs g).pends 48 ≠ (h.gs g).pends 48 → h.running = g := by
    intro g hne
    by_contra hg
    exact hne (step_elsewhere hs (Ne.symm hg) (by decide))
  have howner : ∀ g, e.Delivers g ∨ (h.running = g ∧ e.Notified g) → h.running = g := by
    rintro g (hd | ⟨hg, -⟩)
    · exact hr g hd
    · exact hg
  constructor
  · intro g hg
    obtain rfl := howner g hg
    exact step_arrives hr hs (hg.imp_right And.right)
  · intro g hg other hne irq hirq
    obtain rfl := howner g hg
    exact step_elsewhere hs hne hirq
  · intro g hold hnew
    obtain rfl := hrunning g (by simp [hold, hnew])
    exact (step_source hr hs hold hnew).imp_right fun h => ⟨rfl, h⟩
  · intro g hold hnew
    obtain rfl := hrunning g (by simp [hold, hnew])
    exact ⟨rfl, step_stays hs hold hnew⟩

/-- **In every run whose turns are routed, every device's interrupt goes to its guest and stays there.** -/
theorem device_interrupts_owned (h : Hyp) (es : List Exit) (hr : Meets step Routed h es) : Takes step Owned h es :=
  Takes.of_step (fun _ _ _ (_ : True) hr hs => ⟨trivial, step_owned hr hs⟩) trivial hr

/-- A turn in which nothing answers. -/
def quiet : Exit where
  vcpu := ⟨fun _ => 0, 0⟩
  esr := 0
  input := none
  iar := 0x3ff
  far := 0
  hpfar := 0
  poll := none
  answer := 0
  qpn := 0
  queueSize := 0
  mem := fun _ => 0
  polls := []

/-- The guest notifies its device, with one descriptor at the start of guest 0's memory. -/
def notifyExit : Exit :=
  { quiet with
    esr := 0x91000040
    hpfar := 0xa0000
    far := 0x050
    qpn := 0x40200
    queueSize := 1
    mem := fun a => if a % 16 = 3 then 0x41 else 0 }

/-- The guest waits for an interrupt. -/
def wfiExit : Exit := { quiet with esr := 0x04000000 }

/-- A physical interrupt ends the guest's time. -/
def irqExit (iar : BitVec 32) : Exit := { quiet with esr := 1#64 <<< 63, iar := iar }

/-- Interrupt 48 of both guests. -/
def deviceIrqs (h : Hyp) : Bool × Bool := ((h.gs 0).pends 48, (h.gs 1).pends 48)

theorem device_interrupts_owned_routedRun :
    Meets step Routed boot [notifyExit, irqExit 48, wfiExit, irqExit 49] ∧
      Takes step Owned boot [notifyExit, irqExit 48, wfiExit, irqExit 49] :=
  have hr : Meets step Routed boot [notifyExit, irqExit 48, wfiExit, irqExit 49] := by decide +kernel
  ⟨hr, device_interrupts_owned _ _ hr⟩

/-- Guest 0 notifies its device and waits, guest 1 runs when the device is ready: its interrupt becomes pending for
guest 1, and guest 0 waits on. -/
theorem interrupt_goes_to_running_guest :
    (runs step boot [notifyExit, wfiExit, irqExit 48]).map deviceIrqs = some (false, true) ∧
      ¬Takes step Owned boot [notifyExit, wfiExit, irqExit 48] := by
  have hfinal : (runs step boot [notifyExit, wfiExit, irqExit 48]).map deviceIrqs = some (false, true) := by
    decide +kernel
  refine ⟨hfinal, fun howned => ?_⟩
  obtain ⟨h', hrun, hirqs⟩ := Option.map_eq_some_iff.1 hfinal
  obtain ⟨h₁, hrun, hs⟩ := Option.bind_eq_some_iff.1 ((runs_concat boot [notifyExit, wfiExit] _).symm.trans hrun)
  have hpends := (Takes.last howned hrun hs).arrives 0 (.inl ⟨by decide, by decide⟩)
  simp [deviceIrqs, hpends] at hirqs

end Hyp

end Koros.Hv
