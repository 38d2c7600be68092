import Koros.Hv.Virtio

/-!
# DMA isolation of a guest

What the forwarded device may access on behalf of a guest (`MayAccess`): the rings that its registers imply, and once it
was notified every buffer of every descriptor in memory. The hypervisor checks one page of the rings, checks the
descriptors of the selected queue, and checks them at the time of the notify only.

- a guest that gives the device a queue whose rings end behind its memory breaks the isolation
  (`rings_leave_guest_memory`);
- `Careful` says what the hypervisor leaves to the guest: a queue is set up once, with pages of 4 KiB, and its rings end
  inside the guest's memory; a notify names the selected queue; the tables of a notified queue stay as they are. A run of
  such steps keeps every range inside the guest's memory (`dma_isolated`).
-/
set_option autoImplicit false

namespace Koros.Hv

open Koros.Lib

/-! ## What the device may access -/

/-- The range lies in the guest's host memory. -/
def GuestManifest.Inside (g : GuestManifest) (start len : Nat) : Prop :=
  g.hpaBase ≤ start ∧ start + len ≤ g.hpaBase + g.memorySize

namespace Sys

/-- The queue is in use. -/
def Live (s : Sys) (q : Nat) : Prop := (s.dev.queues q).pfn ≠ 0

/-- The device may read the descriptors of the queue. -/
def Notified (s : Sys) (q : Nat) : Prop := s.Live q ∧ (s.dev.queues q).notified = true

def num (s : Sys) (q : Nat) : Nat := (s.dev.queues q).num

def table (s : Sys) (q : Nat) : Nat := s.dev.descTable q

/-- The address of descriptor `i`. -/
def desc (s : Sys) (q i : Nat) : Nat := s.table q + 16 * i

/-- The device may access the `len` bytes from `start` on. -/
inductive MayAccess (s : Sys) : Nat → Nat → Prop where
  | table {q : Nat} (hq : s.Live q) : MayAccess s (s.table q) (16 * s.num q)
  | avail {q : Nat} (hq : s.Live q) : MayAccess s (availStart (s.table q) (s.num q)) (availSize (s.num q))
  | used {q : Nat} (hq : s.Live q) :
      MayAccess s (usedStart (s.table q) (s.num q) (s.dev.queues q).align) (usedSize (s.num q))
  | buffer {q i : Nat} (hq : s.Notified q) (hi : i < s.num q) :
      MayAccess s (descAddr s.mem (s.desc q i)) (descLen s.mem (s.desc q i))
  | indirect {q i j : Nat} (hq : s.Notified q) (hi : i < s.num q) (hind : isIndirect s.mem (s.desc q i))
      (hj : j < descLen s.mem (s.desc q i) / 16) :
      MayAccess s (descAddr s.mem (descAddr s.mem (s.desc q i) + 16 * j))
        (descLen s.mem (descAddr s.mem (s.desc q i) + 16 * j))

/-- The byte belongs to a table that the device reads: the descriptors of a notified queue, or an indirect table. -/
def Exposed (s : Sys) (a : Nat) : Prop :=
  ∃ q, s.Notified q ∧ ((s.table q ≤ a ∧ a < s.table q + 16 * s.num q) ∨
    ∃ i < s.num q, isIndirect s.mem (s.desc q i) ∧ descAddr s.mem (s.desc q i) ≤ a ∧
      a < descAddr s.mem (s.desc q i) + descLen s.mem (s.desc q i))

/-- What the hypervisor relies on and does not check. -/
def Careful (g : GuestManifest) (s : Sys) : Event → Prop
  | .write off val num =>
    -- the page size is set before any queue, the size and alignment of a queue before its page number
    (off = 0x028 → ∀ q, ¬ s.Live q) ∧
    (off = 0x038 ∨ off = 0x03c → ¬ s.Live s.dev.sel) ∧
    (off = 0x040 → ∀ hpa, g.translate (val * 4096 % 2 ^ 64) 4096 = some hpa →
      s.dev.pageSize = 4096 ∧ ¬ s.Live s.dev.sel ∧
      usedStart hpa (s.num s.dev.sel) (s.dev.queues s.dev.sel).align + usedSize (s.num s.dev.sel) ≤
        g.hpaBase + g.memorySize) ∧
    -- for a guest at its own addresses: the notified queue is the selected one, of the size the device reports
    (off = 0x050 → g.ipaBase = g.hpaBase → val % 2 ^ 32 = s.dev.sel ∧ num = s.num s.dev.sel)
  | .store addr _ => ¬ s.Exposed addr
  | .dma addr _ => ¬ s.Exposed addr
  | _ => True

/-- Every step of the run is careful. -/
def CarefulRun (g : GuestManifest) : Sys → List Event → Prop
  | _, [] => True
  | s, e :: es =>
    s.Careful g e ∧
      match s.step g e with
      | some s' => s'.CarefulRun g es
      | none => True

end Sys

/-! ## Translation -/

/-- The layout of a guest: pages, and its addresses are its own host addresses or end before them. -/
structure GuestManifest.Ok (g : GuestManifest) : Prop where
  ipa_page : 4096 ∣ g.ipaBase
  hpa_page : 4096 ∣ g.hpaBase
  ipa_pos : 0 < g.ipaBase
  hpa_lt : g.hpaBase + g.memorySize < 2 ^ 44
  apart : g.ipaBase = g.hpaBase ∨ g.ipaBase + g.memorySize ≤ g.hpaBase

theorem guestManifests_ok (gid : Fin 2) : (guestManifests gid).Ok := by
  constructor <;> revert gid <;> decide

section Translate

variable {g : GuestManifest} {gpa len hpa : Nat}

/-- What `translate` accepts lies in the guest's memory, and moves with it. -/
theorem translate_eq_some (h : g.translate gpa len = some hpa) :
    g.ipaBase ≤ gpa ∧ gpa + len ≤ g.ipaBase + g.memorySize ∧ hpa = g.hpaBase + (gpa - g.ipaBase) := by
  unfold GuestManifest.translate at h
  obtain ⟨last, hlast, h⟩ := Option.bind_eq_some_iff.1 h
  obtain ⟨memoryEnd, hend, h⟩ := Option.bind_eq_some_iff.1 h
  have hlast := (checkedAdd_some hlast).2
  have hend := (checkedAdd_some hend).2
  split at h
  · cases h
  · have hhpa := (checkedAdd_some h).2
    omega

theorem translate_inside (h : g.translate gpa len = some hpa) : g.Inside hpa len := by
  obtain ⟨h₁, h₂, rfl⟩ := translate_eq_some h
  constructor <;> omega

theorem translate_same (hg : g.ipaBase = g.hpaBase) (h : g.translate gpa len = some hpa) : hpa = gpa := by
  obtain ⟨h₁, -, rfl⟩ := translate_eq_some h
  omega

end Translate

theorem le_alignUp (x a : Nat) : x ≤ alignUp x a := by
  unfold alignUp
  split
  · exact Nat.le_refl x
  · rename_i ha
    have hpos : 0 < a := Nat.pos_of_ne_zero ha
    have h₁ := Nat.div_add_mod (x + a - 1) a
    have h₂ := Nat.mod_lt (x + a - 1) hpos
    rw [Nat.mul_comm] at h₁
    omega

/-! ## The loops of a notify, for a guest at its own addresses -/

/-- The device may use the descriptor at `p`. -/
def DescOk (g : GuestManifest) (mem : Bytes) (p : Nat) : Prop :=
  g.Inside (descAddr mem p) (descLen mem p) ∧
  (isIndirect mem p → ∀ j < descLen mem p / 16,
    g.Inside (descAddr mem (descAddr mem p + 16 * j)) (descLen mem (descAddr mem p + 16 * j)))

/-- The entry saves an address of the table at `p`, or of the indirect table of one of its descriptors. -/
def SavedFrom (mem : Bytes) (p count : Nat) (e : Nat × Nat) : Prop :=
  e.2 = descAddr mem e.1 ∧
  ((∃ i < count, e.1 = p + 16 * i) ∨
    ∃ i < count, isIndirect mem (p + 16 * i) ∧ ∃ j < descLen mem (p + 16 * i) / 16,
      e.1 = descAddr mem (p + 16 * i) + 16 * j)

section Loops

variable {g : GuestManifest} (hg : g.ipaBase = g.hpaBase)
include hg

/-- Translation leaves memory as it is, and accepts a table only when every entry is inside. -/
theorem translateIndirect_spec : ∀ (count p : Nat) (mem : Bytes) (saved : SavedList),
    (translateIndirect g count p mem saved).1 = mem ∧
    ∀ l, (translateIndirect g count p mem saved).2 = some l →
      (∀ j < count, g.Inside (descAddr mem (p + 16 * j)) (descLen mem (p + 16 * j))) ∧
      ∀ e ∈ l, e ∈ saved ∨ e.2 = descAddr mem e.1 ∧ ∃ j < count, e.1 = p + 16 * j
  | 0, p, mem, saved => by
    refine ⟨rfl, fun l hl => ⟨fun j hj => absurd hj (Nat.not_lt_zero j), fun e he => Or.inl ?_⟩⟩
    cases hl
    exact he
  | k + 1, p, mem, saved => by
    rw [translateIndirect]
    cases ht : g.translate (descAddr mem p) (descLen mem p) with
    | none => exact ⟨rfl, fun l hl => by cases hl⟩
    | some hpa =>
      obtain rfl : hpa = descAddr mem p := translate_same hg ht
      have hsame : putLe mem p 8 (descAddr mem p) = mem := putLe_leNat
      obtain ⟨hmem, hrest⟩ := translateIndirect_spec k (p + 16) mem (saved ++ [(p, descAddr mem p)])
      simp only [hsame]
      refine ⟨hmem, fun l hl => ?_⟩
      obtain ⟨hin, hsaved⟩ := hrest l hl
      constructor
      · intro j hj
        cases j with
        | zero => exact translate_inside ht
        | succ j =>
          have h := hin j (by omega)
          rwa [show p + 16 + 16 * j = p + 16 * (j + 1) by omega] at h
      · intro e he
        rcases hsaved e he with hmem | ⟨hval, j, hj, hp⟩
        · rcases List.mem_append.1 hmem with hmem | hnew
          · exact Or.inl hmem
          · rw [List.mem_singleton.1 hnew]
            exact Or.inr ⟨rfl, 0, by omega, rfl⟩
        · exact Or.inr ⟨hval, j + 1, by omega, by omega⟩

theorem translateTable_spec (queueSize : Nat) : ∀ (count p : Nat) (mem : Bytes) (saved : SavedList),
    (translateTable g queueSize count p mem saved).1 = mem ∧
    ∀ l, (translateTable g queueSize count p mem saved).2 = some l →
      (∀ i < count, DescOk g mem (p + 16 * i)) ∧ ∀ e ∈ l, e ∈ saved ∨ SavedFrom mem p count e
  | 0, p, mem, saved => by
    refine ⟨rfl, fun l hl => ⟨fun j hj => absurd hj (Nat.not_lt_zero j), fun e he => Or.inl ?_⟩⟩
    cases hl
    exact he
  | k + 1, p, mem, saved => by
    -- the descriptors behind `p` and what the loop over them saves
    have hstep : ∀ (saved' : SavedList), DescOk g mem p → (∀ e ∈ saved', e ∈ saved ∨ SavedFrom mem p (k + 1) e) →
        (translateTable g queueSize k (p + 16) mem saved').1 = mem ∧
        ∀ l, (translateTable g queueSize k (p + 16) mem saved').2 = some l →
          (∀ i < k + 1, DescOk g mem (p + 16 * i)) ∧ ∀ e ∈ l, e ∈ saved ∨ SavedFrom mem p (k + 1) e := by
      intro saved' hfirst hsaved'
      obtain ⟨hmem, hrest⟩ := translateTable_spec queueSize k (p + 16) mem saved'
      refine ⟨hmem, fun l hl => ?_⟩
      obtain ⟨hok, hsaved⟩ := hrest l hl
      constructor
      · intro i hi
        cases i with
        | zero => exact hfirst
        | succ i =>
          have h := hok i (by omega)
          rwa [show p + 16 + 16 * i = p + 16 * (i + 1) by omega] at h
      · intro e he
        rcases hsaved e he with hin | ⟨hval, ⟨i, hi, hp⟩ | ⟨i, hi, hind, j, hj, hp⟩⟩
        · exact hsaved' e hin
        · exact Or.inr ⟨hval, Or.inl ⟨i + 1, by omega, by omega⟩⟩
        · rw [show p + 16 + 16 * i = p + 16 * (i + 1) by omega] at hind hj hp
          exact Or.inr ⟨hval, Or.inr ⟨i + 1, by omega, hind, j, hj, hp⟩⟩
    rw [translateTable]
    cases ht : g.translate (descAddr mem p) (descLen mem p) with
    | none => exact ⟨rfl, fun l hl => by cases hl⟩
    | some hpa =>
      obtain rfl : hpa = descAddr mem p := translate_same hg ht
      have hsame : putLe mem p 8 (descAddr mem p) = mem := putLe_leNat
      have hnew : ∀ e ∈ saved ++ [(p, descAddr mem p)], e ∈ saved ∨ SavedFrom mem p (k + 1) e := by
        intro e he
        rcases List.mem_append.1 he with hin | hnew
        · exact Or.inl hin
        · rw [List.mem_singleton.1 hnew]
          exact Or.inr ⟨rfl, Or.inl ⟨0, by omega, rfl⟩⟩
      simp only [hsame]
      split
      · rename_i hind
        split
        · exact ⟨rfl, fun l hl => by cases hl⟩
        · obtain ⟨hmem, hentries⟩ := translateIndirect_spec hg (descLen mem p / 16) (descAddr mem p) mem
            (saved ++ [(p, descAddr mem p)])
          split
          · rename_i mem' heq
            rw [heq] at hmem
            exact ⟨hmem, fun l hl => by cases hl⟩
          · rename_i mem' l heq
            rw [heq] at hmem hentries
            obtain rfl : mem' = mem := hmem
            obtain ⟨hin, hsaved⟩ := hentries l rfl
            refine hstep l ⟨translate_inside ht, fun _ => hin⟩ fun e he => ?_
            rcases hsaved e he with hold | ⟨hval, j, hj, hp⟩
            · exact hnew e hold
            · exact Or.inr ⟨hval, Or.inr ⟨0, by omega, hind, j, hj, hp⟩⟩
      · rename_i hind
        exact hstep _ ⟨translate_inside ht, fun h => absurd h hind⟩ hnew

end Loops

/-! ## The invariant -/

structure Inv (g : GuestManifest) (s : Sys) : Prop where
  /-- The rings of a queue in use lie in the guest's memory. -/
  rings : ∀ q, s.Live q → s.dev.pageSize = 4096 ∧ g.hpaBase ≤ s.table q ∧
    usedStart (s.table q) (s.num q) (s.dev.queues q).align + usedSize (s.num q) ≤ g.hpaBase + g.memorySize
  /-- Only a guest at its own addresses gets a notify through, and for a queue in use. -/
  notified : ∀ q, (s.dev.queues q).notified = true → s.Live q ∧ g.ipaBase = g.hpaBase
  buffers : ∀ q, s.Notified q → ∀ i < s.num q, DescOk g s.mem (s.desc q i)
  /-- What the hypervisor will put back is what is there. -/
  saved : ∀ l, s.saved = some l → ∀ e ∈ l, leNat s.mem e.1 8 = e.2 ∧ ∀ k < 8, s.Exposed (e.1 + k)

section Invariant

variable {g : GuestManifest} {s : Sys}

/-- The invariant is isolation. -/
theorem Inv.inside (h : Inv g s) {start len : Nat} (ha : s.MayAccess start len) : g.Inside start len := by
  have hle : ∀ q, s.table q + 16 * s.num q + availSize (s.num q) ≤
      usedStart (s.table q) (s.num q) (s.dev.queues q).align := fun q => le_alignUp _ _
  cases ha with
  | table hq =>
    obtain ⟨-, h₁, h₂⟩ := h.rings _ hq
    rename_i q
    have := hle q
    exact ⟨h₁, by omega⟩
  | avail hq =>
    obtain ⟨-, h₁, h₂⟩ := h.rings _ hq
    rename_i q
    have := hle q
    exact ⟨by unfold availStart; omega, by unfold availStart; omega⟩
  | used hq =>
    obtain ⟨-, h₁, h₂⟩ := h.rings _ hq
    rename_i q
    have := hle q
    exact ⟨by omega, h₂⟩
  | buffer hq hi => exact (h.buffers _ hq _ hi).1
  | indirect hq hi hind hj => exact (h.buffers _ hq _ hi).2 hind _ hj

/-! ### Writes into memory -/

section Mem

variable {mem' : Bytes}

/-- The tables that the device reads are the same in the new memory. -/
theorem desc_congr (hsame : ∀ a, s.Exposed a → mem' a = s.mem a) {q i : Nat} (hq : s.Notified q) (hi : i < s.num q) :
    descAddr mem' (s.desc q i) = descAddr s.mem (s.desc q i) ∧ descLen mem' (s.desc q i) = descLen s.mem (s.desc q i) ∧
    isIndirect mem' (s.desc q i) = isIndirect s.mem (s.desc q i) := by
  have hbyte : ∀ a, s.desc q i ≤ a → a < s.desc q i + 16 → mem' a = s.mem a := by
    intro a h₁ h₂
    apply hsame
    unfold Sys.desc at h₁ h₂
    exact ⟨q, hq, Or.inl ⟨by omega, by omega⟩⟩
  refine ⟨?_, ?_, ?_⟩
  · exact leNat_congr fun j h₁ h₂ => hbyte j (by omega) (by omega)
  · exact leNat_congr fun j h₁ h₂ => hbyte j (by omega) (by omega)
  · unfold isIndirect descFlags
    rw [leNat_congr fun j h₁ h₂ => hbyte j (by omega) (by omega)]

theorem exposed_congr (hsame : ∀ a, s.Exposed a → mem' a = s.mem a) {a : Nat} (ha : s.Exposed a) :
    ({ s with mem := mem' } : Sys).Exposed a := by
  obtain ⟨q, hq, hin | ⟨i, hi, hind, h₁, h₂⟩⟩ := ha
  · exact ⟨q, hq, Or.inl hin⟩
  · obtain ⟨haddr, hlen, hflag⟩ := desc_congr hsame hq hi
    refine ⟨q, hq, Or.inr ⟨i, hi, ?_, ?_, ?_⟩⟩
    · exact hflag.trans hind
    · exact Nat.le_trans (Nat.le_of_eq haddr) h₁
    · exact Nat.lt_of_lt_of_eq h₂ (by rw [← haddr, ← hlen]; rfl)

theorem descOk_congr (hsame : ∀ a, s.Exposed a → mem' a = s.mem a) {q i : Nat} (hq : s.Notified q) (hi : i < s.num q)
    (h : DescOk g s.mem (s.desc q i)) : DescOk g mem' (s.desc q i) := by
  obtain ⟨haddr, hlen, hflag⟩ := desc_congr hsame hq hi
  refine ⟨by rw [haddr, hlen]; exact h.1, fun hind j hj => ?_⟩
  rw [hflag] at hind
  rw [hlen] at hj
  -- the entry is one of an indirect table that the device reads
  have hbyte : ∀ a, descAddr s.mem (s.desc q i) + 16 * j ≤ a → a < descAddr s.mem (s.desc q i) + 16 * j + 16 →
      mem' a = s.mem a := fun a h₁ h₂ => hsame a ⟨q, hq, Or.inr ⟨i, hi, hind, by omega, by omega⟩⟩
  have h₁ : descAddr mem' (descAddr s.mem (s.desc q i) + 16 * j) =
      descAddr s.mem (descAddr s.mem (s.desc q i) + 16 * j) :=
    leNat_congr fun a h₁ h₂ => hbyte a (by omega) (by omega)
  have h₂ : descLen mem' (descAddr s.mem (s.desc q i) + 16 * j) =
      descLen s.mem (descAddr s.mem (s.desc q i) + 16 * j) :=
    leNat_congr fun a h₁ h₂ => hbyte a (by omega) (by omega)
  rw [haddr, h₁, h₂]
  exact h.2 hind j hj

/-- A write that leaves the exposed tables alone keeps the invariant. -/
theorem Inv.setMem (h : Inv g s) (hsame : ∀ a, s.Exposed a → mem' a = s.mem a) : Inv g { s with mem := mem' } where
  rings := h.rings
  notified := h.notified
  buffers := fun q hq i hi => descOk_congr hsame hq hi (h.buffers q hq i hi)
  saved := fun l hl e he => by
    obtain ⟨hval, hexp⟩ := h.saved l hl e he
    refine ⟨?_, fun k hk => exposed_congr hsame (hexp k hk)⟩
    rw [← hval]
    apply leNat_congr
    intro j h₁ h₂
    have hj := hexp (j - e.1) (by omega)
    rw [show e.1 + (j - e.1) = j by omega] at hj
    exact hsame j hj

theorem Inv.update (h : Inv g s) {a : Nat} (ha : ¬ s.Exposed a) (b : Byte) :
    Inv g { s with mem := Function.update s.mem a b } := by
  apply h.setMem
  intro a' ha'
  apply Function.update_of_ne
  rintro rfl
  exact ha ha'

/-- Putting the saved addresses back changes nothing. -/
theorem foldl_putLe_same {mem : Bytes} : ∀ (l : SavedList), (∀ e ∈ l, leNat mem e.1 8 = e.2) →
    l.foldl (fun mem e => putLe mem e.1 8 e.2) mem = mem
  | [], _ => rfl
  | e :: l, h => by
    have he : putLe mem e.1 8 e.2 = mem := by
      rw [← h e (List.mem_cons_self ..)]
      exact putLe_leNat
    rw [List.foldl_cons, he]
    exact foldl_putLe_same l fun e he => h e (List.mem_cons_of_mem _ he)

theorem Inv.restore (h : Inv g s) {l : SavedList} (hl : s.saved = some l) : Inv g (s.restore l) := by
  have hmem : l.reverse.foldl (fun mem e => putLe mem e.1 8 e.2) s.mem = s.mem :=
    foldl_putLe_same _ fun e he => (h.saved l hl e (List.mem_reverse.1 he)).1
  unfold Sys.restore
  rw [hmem]
  exact ⟨h.rings, h.notified, h.buffers, fun l hl => by cases hl⟩

end Mem

/-! ### Register writes -/

theorem Inv.stop (h : Inv g s) : Inv g { s with done := true } := ⟨h.rings, h.notified, h.buffers, h.saved⟩

/-- A queue that was not in use gets new parameters. -/
theorem Inv.setQueue (h : Inv g s) (hsaved : s.saved = none) (hsel : ¬ s.Live s.dev.sel) {f : Queue → Queue}
    (hnot : (f (s.dev.queues s.dev.sel)).notified = true → (s.dev.queues s.dev.sel).notified = true)
    (hring : (f (s.dev.queues s.dev.sel)).pfn ≠ 0 → s.dev.pageSize = 4096 ∧
      g.hpaBase ≤ (f (s.dev.queues s.dev.sel)).pfn * 4096 ∧
      usedStart ((f (s.dev.queues s.dev.sel)).pfn * 4096) (f (s.dev.queues s.dev.sel)).num
        (f (s.dev.queues s.dev.sel)).align + usedSize (f (s.dev.queues s.dev.sel)).num ≤ g.hpaBase + g.memorySize) :
    Inv g { s with dev := s.dev.setQueue f } := by
  have hother : ∀ q, q ≠ s.dev.sel → (s.dev.setQueue f).queues q = s.dev.queues q := fun q hq =>
    Function.update_of_ne hq _ _
  have hself : (s.dev.setQueue f).queues s.dev.sel = f (s.dev.queues s.dev.sel) := Function.update_self ..
  -- the device reads no descriptor of the selected queue
  have hquiet : ((s.dev.setQueue f).queues s.dev.sel).notified = true → False := by
    intro hn
    rw [hself] at hn
    exact hsel (h.notified _ (hnot hn)).1
  constructor
  · intro q hq
    by_cases hqs : q = s.dev.sel
    · subst hqs
      have hpfn : (f (s.dev.queues s.dev.sel)).pfn ≠ 0 := by
        have : ((s.dev.setQueue f).queues s.dev.sel).pfn ≠ 0 := hq
        rwa [hself] at this
      obtain ⟨hpage, hring⟩ := hring hpfn
      simp only [Sys.table, Sys.num, Device.descTable, hself]
      rw [show (s.dev.setQueue f).pageSize = 4096 from hpage]
      exact ⟨rfl, hring⟩
    · have hq' : s.Live q := by
        have : ((s.dev.setQueue f).queues q).pfn ≠ 0 := hq
        rwa [hother q hqs] at this
      simp only [Sys.table, Sys.num, Device.descTable, hother q hqs]
      exact h.rings q hq'
  · intro q hn
    by_cases hqs : q = s.dev.sel
    · exact absurd (hqs ▸ hn) hquiet
    · simp only [Sys.Live, hother q hqs] at hn ⊢
      exact h.notified q hn
  · intro q hq i hi
    by_cases hqs : q = s.dev.sel
    · exact absurd (hqs ▸ hq.2) hquiet
    · simp only [Sys.Notified, Sys.Live, hother q hqs] at hq
      simp only [Sys.num, hother q hqs] at hi
      simp only [Sys.desc, Sys.table, Device.descTable, hother q hqs]
      exact h.buffers q hq i hi
  · intro l hl
    have hnone : s.saved = some l := hl
    rw [hsaved] at hnone
    cases hnone

/-- No queue is in use and none was notified. -/
theorem Inv.of_idle (hsaved : s.saved = none) (hlive : ∀ q, ¬ s.Live q)
    (hnot : ∀ q, (s.dev.queues q).notified = false) : Inv g s where
  rings := fun q hq => absurd hq (hlive q)
  notified := fun q hn => by rw [hnot q] at hn; cases hn
  buffers := fun q hq => absurd hq.1 (hlive q)
  saved := fun l hl => by rw [hsaved] at hl; cases hl

theorem Inv.queuePfn (h : Inv g s) (hg : g.Ok) (hsaved : s.saved = none) {val num : Nat}
    (hc : s.Careful g (.write 0x040 val num)) {value : Nat} (hv : Sys.queuePfn g val = some value) :
    Inv g { s with dev := s.dev.write 0x040 (value % 2 ^ 32) } := by
  obtain ⟨hpa, ht, rfl⟩ := Option.map_eq_some_iff.1 hv
  obtain ⟨hpage, hsel, hring⟩ := hc.2.2.1 rfl hpa ht
  obtain ⟨h₁, h₂, hhpa⟩ := translate_eq_some ht
  -- the page number names the translated address
  have hpfn : hpa / 4096 % 2 ^ 32 * 4096 = hpa := by
    obtain ⟨a, ha⟩ := hg.ipa_page
    obtain ⟨b, hb⟩ := hg.hpa_page
    have := hg.hpa_lt
    omega
  refine h.setQueue (f := fun q => { q with pfn := hpa / 4096 % 2 ^ 32, notified := q.notified && _ }) hsaved hsel ?_ ?_
  · intro hn
    exact (Bool.and_eq_true_iff.1 hn).1
  · intro _
    show s.dev.pageSize = 4096 ∧ g.hpaBase ≤ hpa / 4096 % 2 ^ 32 * 4096 ∧
      usedStart (hpa / 4096 % 2 ^ 32 * 4096) (s.num s.dev.sel) (s.dev.queues s.dev.sel).align +
        usedSize (s.num s.dev.sel) ≤ g.hpaBase + g.memorySize
    rw [hpfn]
    exact ⟨hpage, by omega, hring⟩

/-- A notify of a guest at other addresses is refused: the register holds a host page. -/
theorem Inv.notify_refused (h : Inv g s) (hg : g.Ok) (hne : g.ipaBase ≠ g.hpaBase) {num : Nat} (hnum : num ≠ 0) :
    g.translate ((s.dev.queues s.dev.sel).pfn * 4096) (num * 16) = none := by
  rw [Option.eq_none_iff_forall_ne_some]
  intro hpa ht
  obtain ⟨h₁, h₂, -⟩ := translate_eq_some ht
  have hapart := hg.apart.resolve_left hne
  have hpos := hg.ipa_pos
  by_cases hlive : s.Live s.dev.sel
  · obtain ⟨hpage, hlo, -⟩ := h.rings _ hlive
    rw [Sys.table, Device.descTable, hpage] at hlo
    omega
  · have hzero : (s.dev.queues s.dev.sel).pfn = 0 := by simpa [Sys.Live] using hlive
    rw [hzero] at h₁
    omega

/-- A notify that is forwarded exposes tables that were checked. -/
theorem Inv.expose (h : Inv g s) (hg : g.Ok) (hsame : g.ipaBase = g.hpaBase) {descHpa : Nat} {l : SavedList}
    (ht : g.translate ((s.dev.queues s.dev.sel).pfn * 4096) (s.num s.dev.sel * 16) = some descHpa)
    (hok : ∀ i < s.num s.dev.sel, DescOk g s.mem (descHpa + 16 * i))
    (hl : ∀ e ∈ l, SavedFrom s.mem descHpa (s.num s.dev.sel) e) :
    Inv g { s with dev := s.dev.write 0x050 s.dev.sel, saved := some l } := by
  have hlive : s.Live s.dev.sel := by
    intro hzero
    have h₁ := (translate_eq_some ht).1
    have hpos := hg.ipa_pos
    rw [hzero] at h₁
    omega
  have htable : s.table s.dev.sel = descHpa := by
    rw [Sys.table, Device.descTable, (h.rings _ hlive).1, translate_same hsame ht]
  -- the queues differ in the notified flag of the selected one only
  have hqueue : ∀ q, ((s.dev.write 0x050 s.dev.sel).queues q).num = s.num q ∧
      ((s.dev.write 0x050 s.dev.sel).queues q).pfn = (s.dev.queues q).pfn ∧
      ((s.dev.write 0x050 s.dev.sel).queues q).align = (s.dev.queues q).align ∧
      (((s.dev.write 0x050 s.dev.sel).queues q).notified = true ↔ q = s.dev.sel ∨ (s.dev.queues q).notified = true) := by
    intro q
    by_cases hq : q = s.dev.sel
    · subst hq; simp [Device.write, Sys.num]
    · simp [Device.write, Sys.num, hq]
  let s' : Sys := { s with dev := s.dev.write 0x050 s.dev.sel, saved := some l }
  have hnum : ∀ q, s'.num q = s.num q := fun q => (hqueue q).1
  have htab : ∀ q, s'.table q = s.table q := fun q => by
    show ((s.dev.write 0x050 s.dev.sel).queues q).pfn * _ = _
    rw [(hqueue q).2.1]
    rfl
  have hlive' : ∀ q, s'.Live q ↔ s.Live q := fun q => by
    show ((s.dev.write 0x050 s.dev.sel).queues q).pfn ≠ 0 ↔ _
    rw [(hqueue q).2.1]
    rfl
  have hdesc : ∀ q i, s'.desc q i = s.desc q i := fun q i => by rw [Sys.desc, htab, Sys.desc]
  constructor
  · intro q hq
    have hring := h.rings q ((hlive' q).1 hq)
    show s.dev.pageSize = _ ∧ g.hpaBase ≤ s'.table q ∧ usedStart (s'.table q) (s'.num q) (s'.dev.queues q).align + _ ≤ _
    rw [htab, hnum, (hqueue q).2.2.1]
    exact hring
  · intro q hn
    rcases (hqueue q).2.2.2.1 hn with rfl | hold
    · exact ⟨(hlive' _).2 hlive, hsame⟩
    · exact ⟨(hlive' q).2 (h.notified q hold).1, hsame⟩
  · intro q hq i hi
    rw [hdesc]
    rw [hnum] at hi
    rcases (hqueue q).2.2.2.1 hq.2 with rfl | hold
    · have := hok i hi
      rwa [← htable] at this
    · exact h.buffers q ⟨(hlive' q).1 hq.1, hold⟩ i hi
  · intro l' hl' e he
    cases hl'
    obtain ⟨hval, hwhere⟩ := hl e he
    refine ⟨hval.symm, fun k hk => ⟨s.dev.sel, ⟨(hlive' _).2 hlive, (hqueue _).2.2.2.2 (Or.inl rfl)⟩, ?_⟩⟩
    rw [htab, hnum, htable]
    rcases hwhere with ⟨i, hi, hp⟩ | ⟨i, hi, hind, j, hj, hp⟩
    · exact Or.inl ⟨by omega, by omega⟩
    · refine Or.inr ⟨i, hi, ?_⟩
      show isIndirect s.mem (s'.desc s.dev.sel i) ∧ descAddr s.mem (s'.desc s.dev.sel i) ≤ e.1 + k ∧
        e.1 + k < descAddr s.mem (s'.desc s.dev.sel i) + descLen s.mem (s'.desc s.dev.sel i)
      rw [hdesc, Sys.desc, htable]
      exact ⟨hind, by omega, by omega⟩

theorem Inv.notify (h : Inv g s) (hg : g.Ok) {val num : Nat} (hc : s.Careful g (.write 0x050 val num)) :
    Inv g (s.notify g val num) := by
  unfold Sys.notify
  dsimp only
  split
  · exact h.stop
  · rename_i hnum
    split
    · exact h.stop
    · rename_i descHpa ht
      by_cases hsame : g.ipaBase = g.hpaBase
      · obtain ⟨hval, rfl⟩ := hc.2.2.2 rfl hsame
        obtain ⟨hmem, hrest⟩ := translateTable_spec hsame (s.num s.dev.sel) (s.num s.dev.sel) descHpa s.mem []
        split
        · rename_i mem' heq
          rw [heq] at hmem
          obtain rfl : mem' = s.mem := hmem
          exact h.stop
        · rename_i mem' l heq
          rw [heq] at hmem hrest
          obtain rfl : mem' = s.mem := hmem
          obtain ⟨hok, hl⟩ := hrest l rfl
          rw [hval]
          refine h.expose hg hsame ht hok fun e he => ?_
          exact (hl e he).resolve_left (by simp)
      · rw [h.notify_refused hg hsame (by omega)] at ht
        cases ht

theorem Inv.mmioWrite (h : Inv g s) (hg : g.Ok) (hsaved : s.saved = none) {off val num : Nat}
    (hc : s.Careful g (.write off val num)) : Inv g (s.mmioWrite g off val num) := by
  unfold Sys.mmioWrite
  split
  · rename_i hoff
    subst hoff
    exact h.notify hg hc
  split
  · rename_i hoff
    subst hoff
    split
    · exact h.stop
    · rename_i value hv
      exact h.queuePfn hg hsaved hc hv
  · rename_i hnotify hpfn
    unfold Device.write
    split
    · -- the page size, before any queue
      have hlive := hc.1 rfl
      refine .of_idle hsaved hlive fun q => ?_
      cases hn : (s.dev.queues q).notified with
      | false => rfl
      | true => exact absurd (h.notified q hn).1 (hlive q)
    · exact ⟨h.rings, h.notified, h.buffers, h.saved⟩
    · exact h.setQueue hsaved (hc.2.1 (Or.inl rfl)) id fun hp => absurd hp (hc.2.1 (Or.inl rfl))
    · exact h.setQueue hsaved (hc.2.1 (Or.inr rfl)) id fun hp => absurd hp (hc.2.1 (Or.inr rfl))
    · exact absurd rfl hpfn
    · exact absurd rfl hnotify
    · split
      · exact .of_idle hsaved (fun q hq => hq rfl) fun q => rfl
      · exact h
    · exact h

/-! ## Runs -/

/-- **One step**: careful steps keep the invariant. -/
theorem step_inv (hg : g.Ok) {s' : Sys} (h : Inv g s) {e : Event} (hc : s.Careful g e) (hs : s.step g e = some s') :
    Inv g s' := by
  cases e with
  | write off val num =>
    simp only [Sys.step] at hs
    split at hs
    · rename_i hruns
      cases hs
      have hsaved : s.saved = none := by
        have := hruns.1
        simp only [Sys.guestRuns, Bool.and_eq_true, Option.isNone_iff_eq_none] at this
        exact this.2
      exact h.mmioWrite hg hsaved hc
    · cases hs
  | read off =>
    simp only [Sys.step] at hs
    split at hs
    · cases hs; exact h
    · cases hs
  | store addr byte =>
    simp only [Sys.step] at hs
    split at hs
    · cases hs; exact h.update hc byte
    · cases hs
  | dma addr byte => cases hs; exact h.update hc byte
  | restore =>
    obtain ⟨l, hl, rfl⟩ := Option.map_eq_some_iff.1 hs
    exact h.restore hl

theorem run_inv (hg : g.Ok) : ∀ (es : List Event) {s s' : Sys}, Inv g s → s.CarefulRun g es → s.run g es = some s' →
    Inv g s'
  | [], s, s', h, _, hs => by cases hs; exact h
  | e :: es, s, s', h, hc, hs => by
    obtain ⟨s₁, hs₁, hs₂⟩ := Option.bind_eq_some_iff.1 hs
    rw [Sys.CarefulRun, hs₁] at hc
    exact run_inv hg es (step_inv hg h hc.1 hs₁) hc.2 hs₂

end Invariant

theorem boot_inv (g : GuestManifest) (mem : Bytes) : Inv g (Sys.boot mem) :=
  .of_idle rfl (fun _ hq => hq rfl) fun _ => rfl

/-- **DMA isolation**: in every run of careful steps, every range that the device may access lies in the guest's own
memory. -/
theorem dma_isolated (gid : Fin 2) (mem : Bytes) (es : List Event) {s : Sys}
    (hs : (Sys.boot mem).run (guestManifests gid) es = some s)
    (hc : (Sys.boot mem).CarefulRun (guestManifests gid) es) {start len : Nat} (ha : s.MayAccess start len) :
    (guestManifests gid).Inside start len :=
  (run_inv (guestManifests_ok gid) es (boot_inv _ mem) hc hs).inside ha

/-- One descriptor, of 512 bytes at `0x40210000`, at the start of the memory of guest 0. -/
def oneDescriptor : Bytes := putLe (putLe (fun _ => 0) 0x40200000 8 0x40210000) 0x40200008 4 512

/-- Guest 0 gives the device a queue with this descriptor and notifies it. -/
def notifyRun : List Event :=
  [.write 0x028 4096 0, .write 0x038 1 0, .write 0x03c 4096 0, .write 0x040 0x40200 0, .write 0x050 0 1, .restore]

theorem dma_isolated_notifyRun :
    ∃ s, (Sys.boot oneDescriptor).run (guestManifests 0) notifyRun = some s ∧ s.MayAccess 0x40210000 512 ∧
      (guestManifests 0).Inside 0x40210000 512 := by
  have hrun : ((Sys.boot oneDescriptor).run (guestManifests 0) notifyRun).map (fun s =>
      (s.dev.queues 0, s.dev.pageSize, descAddr s.mem 0x40200000, descLen s.mem 0x40200000)) =
      some (⟨1, 4096, 0x40200, true⟩, 4096, 0x40210000, 512) := by decide +kernel
  obtain ⟨s, hs, hv⟩ := Option.map_eq_some_iff.1 hrun
  simp only [Prod.mk.injEq] at hv
  obtain ⟨hq, hpage, haddr, hlen⟩ := hv
  have hdesc : s.desc 0 0 = 0x40200000 := by simp [Sys.desc, Sys.table, Device.descTable, hq, hpage]
  have hacc : s.MayAccess 0x40210000 512 := by
    have h := Sys.MayAccess.buffer (s := s) (q := 0) (i := 0) ⟨by simp [Sys.Live, hq], by rw [hq]⟩ (by simp [Sys.num, hq])
    rwa [hdesc, haddr, hlen] at h
  have hfree : ∀ q, ¬ (Sys.boot oneDescriptor).Live q := fun q hq => hq rfl
  have hcareful : (Sys.boot oneDescriptor).CarefulRun (guestManifests 0) notifyRun := by
    refine And.intro ⟨fun _ => hfree, nofun, nofun, nofun⟩ ?_
    refine And.intro ⟨nofun, fun _ hq => hq rfl, nofun, nofun⟩ ?_
    refine And.intro ⟨nofun, fun _ hq => hq rfl, nofun, nofun⟩ ?_
    refine And.intro ⟨nofun, nofun, fun _ hpa ht => ?_, nofun⟩ ?_
    · obtain rfl : 0x40200000 = hpa := by
        have h : (guestManifests 0).translate (0x40200 * 4096 % 2 ^ 64) 4096 = some 0x40200000 := by decide +kernel
        exact Option.some.inj (h.symm.trans ht)
      exact ⟨rfl, fun hq => hq rfl, by decide +kernel⟩
    refine And.intro ⟨nofun, nofun, nofun, fun _ _ => ⟨rfl, rfl⟩⟩ ?_
    exact And.intro trivial trivial
  exact ⟨s, hs, hacc, dma_isolated 0 oneDescriptor notifyRun hs hcareful hacc⟩

/-- Guest 1 gives the device a queue of 1024 descriptors in the last page of its memory. -/
def lastPageRun : List Event :=
  [.write 0x028 4096 0, .write 0x038 1024 0, .write 0x03c 4096 0, .write 0x040 0x441ff 0]

/-- The descriptor table of the queue, at `0x481ff000`, ends behind the memory of guest 1. -/
theorem rings_leave_guest_memory :
    ∃ s, (Sys.boot fun _ => 0).run (guestManifests 1) lastPageRun = some s ∧ s.MayAccess 0x481ff000 0x4000 ∧
      ¬ (guestManifests 1).Inside 0x481ff000 0x4000 := by
  have hrun : ((Sys.boot fun _ => 0).run (guestManifests 1) lastPageRun).map (fun s =>
      (s.dev.queues 0, s.dev.pageSize)) = some (⟨1024, 4096, 0x481ff, false⟩, 4096) := by decide +kernel
  obtain ⟨s, hs, hv⟩ := Option.map_eq_some_iff.1 hrun
  obtain ⟨hq, hpage⟩ := Prod.mk.inj hv
  refine ⟨s, hs, ?_, fun hin => absurd hin.2 (by decide)⟩
  have h := Sys.MayAccess.table (s := s) (q := 0) (by simp [Sys.Live, hq])
  simpa [Sys.table, Device.descTable, Sys.num, hq, hpage] using h

end Koros.Hv
