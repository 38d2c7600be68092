import Koros.Hv.Dma

/-!
# Notifying a forwarded queue

A guest gives the device the page number of a queue and notifies it later. The hypervisor stores the translated page number
in the device's register, and on the notify it reads the register back and translates what it finds once more.

- `restore_undoes`: what an accepted notify rewrote is put back, whatever the tables are and wherever they overlap;
- `translateTable_accepts`: for a guest at its own addresses a table is accepted exactly when all entries are valid, those
  that the guest has not made available too;
- **`notify_works_iff`**: the notify of a queue works exactly for such a guest and such a table. For any other guest the
  page number is translated twice (`notify_fails_secondDescriptor`).
-/
set_option autoImplicit false

namespace Koros.Hv

open Koros.Lib

/-! ## What is asked of a notify -/

/-- The descriptor at `p` is one that the hypervisor should accept: a buffer in the guest's memory, or a table of such
descriptors that is no longer than the queue. -/
def ValidDesc (g : GuestManifest) (queueSize : Nat) (mem : Bytes) (p : Nat) : Prop :=
  ∃ a, g.translate (descAddr mem p) (descLen mem p) = some a ∧
    (isIndirect mem p = true → descLen mem p ≠ 0 ∧ descLen mem p % 16 = 0 ∧ descLen mem p / 16 ≤ queueSize ∧
      ∀ j < descLen mem p / 16, ∃ b, g.translate (descAddr mem (a + 16 * j)) (descLen mem (a + 16 * j)) = some b)

namespace Sys

/-- The page number that the device's register reads back. -/
def readPfn (s : Sys) : Nat := (s.dev.queues s.dev.sel).pfn

/-- The device sees each available descriptor of the table at `p`, and of the indirect tables, with its translated
address. -/
def Exposes (g : GuestManifest) (s s' : Sys) (avail : Set Nat) (num p : Nat) : Prop :=
  ∀ i < num, i ∈ avail → ∀ a, g.translate (descAddr s.mem (p + 16 * i)) (descLen s.mem (p + 16 * i)) = some a →
    descAddr s'.mem (p + 16 * i) = a ∧
    (isIndirect s.mem (p + 16 * i) = true → ∀ j < descLen s.mem (p + 16 * i) / 16, ∀ b,
      g.translate (descAddr s.mem (a + 16 * j)) (descLen s.mem (a + 16 * j)) = some b → descAddr s'.mem (a + 16 * j) = b)

/-- The notify of a queue whose descriptor table lies at the host address `hpa`, and whose descriptors in `avail` the guest
has made available. -/
structure NotifyWorks (g : GuestManifest) (s : Sys) (avail : Set Nat) (val num hpa : Nat) : Prop where
  /-- The device has the table at its translated address, and so does the hypervisor. -/
  given : s.readPfn * 4096 = hpa
  found : g.translate (s.readPfn * 4096) (num * 16) = some hpa
  /-- The device is notified, with every descriptor translated, and then the guest's memory is put back. -/
  notified : ∃ saved, (s.notify g val num).saved = some saved ∧ (s.notify g val num).done = false ∧
    s.Exposes g (s.notify g val num) avail num hpa ∧ ((s.notify g val num).restore saved).mem = s.mem
  /-- A rejection leaves the guest's memory alone. -/
  rejected : (s.notify g val num).done = true → (s.notify g val num).mem = s.mem

end Sys

/-! ## Putting the addresses back -/

/-- The addresses are written back, the last one first. -/
def undo (mem : Bytes) (saved : SavedList) : Bytes := saved.reverse.foldl (fun mem e => putLe mem e.1 8 e.2) mem

theorem putLe_putLe (mem : Bytes) (p n v v' : Nat) : putLe (putLe mem p n v) p n v' = putLe mem p n v' := by
  funext a
  unfold putLe blit
  split
  · rfl
  · rfl

/-- The word that was written last is put back first. -/
theorem undo_push (mem : Bytes) (saved : SavedList) (p hpa : Nat) :
    undo (putLe mem p 8 hpa) (saved ++ [(p, descAddr mem p)]) = undo mem saved := by
  have hfirst : putLe (putLe mem p 8 hpa) p 8 (descAddr mem p) = mem := by
    rw [putLe_putLe]
    exact putLe_leNat
  rw [undo, List.reverse_append, List.reverse_singleton, List.singleton_append, List.foldl_cons, hfirst]
  rfl

theorem translateIndirect_undo (g : GuestManifest) : ∀ (count p : Nat) (mem : Bytes) (saved l : SavedList),
    (translateIndirect g count p mem saved).2 = some l → undo (translateIndirect g count p mem saved).1 l = undo mem saved
  | 0, _, _, _, _, h => by
    cases h
    rfl
  | k + 1, p, mem, saved, l, h => by
    rw [translateIndirect] at h ⊢
    cases ht : g.translate (descAddr mem p) (descLen mem p) with
    | none =>
      rw [ht] at h
      cases h
    | some hpa =>
      rw [ht] at h
      exact (translateIndirect_undo g k (p + 16) _ _ l h).trans (undo_push mem saved p hpa)

theorem translateTable_undo (g : GuestManifest) (queueSize : Nat) : ∀ (count p : Nat) (mem : Bytes) (saved l : SavedList),
    (translateTable g queueSize count p mem saved).2 = some l →
      undo (translateTable g queueSize count p mem saved).1 l = undo mem saved
  | 0, _, _, _, _, h => by
    cases h
    rfl
  | k + 1, p, mem, saved, l, h => by
    rw [translateTable] at h ⊢
    cases ht : g.translate (descAddr mem p) (descLen mem p) with
    | none =>
      rw [ht] at h
      cases h
    | some hpa =>
      rw [ht] at h
      dsimp only at h ⊢
      have hpush := undo_push mem saved p hpa
      by_cases hind : isIndirect mem p = true
      · rw [if_pos hind] at h ⊢
        by_cases hbad : descLen mem p = 0 ∨ descLen mem p % 16 ≠ 0 ∨ queueSize < descLen mem p / 16
        · rw [if_pos hbad] at h
          cases h
        · rw [if_neg hbad] at h ⊢
          have hundo := translateIndirect_undo g (descLen mem p / 16) hpa (putLe mem p 8 hpa) (saved ++ [(p, descAddr mem p)])
          rcases hinner : translateIndirect g (descLen mem p / 16) hpa (putLe mem p 8 hpa) (saved ++ [(p, descAddr mem p)])
            with ⟨mem', saved'⟩
          rw [hinner] at h hundo
          cases saved' with
          | none => cases h
          | some saved' =>
            exact (translateTable_undo g queueSize k (p + 16) mem' saved' l h).trans ((hundo saved' rfl).trans hpush)
      · rw [if_neg hind] at h ⊢
        exact (translateTable_undo g queueSize k (p + 16) _ _ l h).trans hpush

theorem notify_eq (g : GuestManifest) (s : Sys) (val : Nat) {num : Nat} (hnum : ¬ (num = 0 ∨ 1024 < num)) :
    s.notify g val num = match g.translate (s.readPfn * 4096) (num * 16) with
      | none => { s with done := true }
      | some descHpa =>
        match translateTable g num num descHpa s.mem [] with
        | (mem, none) => { s with mem := mem, done := true }
        | (mem, some saved) => { s with mem := mem, dev := s.dev.write 0x050 (val % 2 ^ 32), saved := some saved } :=
  if_neg hnum

/-- A notify stops the guest, or it rewrites the tables and tells the device. -/
theorem notify_cases (g : GuestManifest) (s : Sys) (val num : Nat) :
    ((s.notify g val num).done = true ∧ (s.notify g val num).saved = s.saved) ∨
      ∃ hpa mem l, 0 < num ∧ num ≤ 1024 ∧ g.translate (s.readPfn * 4096) (num * 16) = some hpa ∧
        translateTable g num num hpa s.mem [] = (mem, some l) ∧
        s.notify g val num = { s with mem := mem, dev := s.dev.write 0x050 (val % 2 ^ 32), saved := some l } := by
  by_cases hnum : num = 0 ∨ 1024 < num
  · left
    simp only [Sys.notify, if_pos hnum, and_self]
  · rw [notify_eq g s val hnum]
    cases ht : g.translate (s.readPfn * 4096) (num * 16) with
    | none => exact Or.inl ⟨rfl, rfl⟩
    | some hpa =>
      rcases htable : translateTable g num num hpa s.mem [] with ⟨mem, _ | l⟩
      · left
        simp only [htable, and_self]
      · refine Or.inr ⟨hpa, mem, l, by omega, by omega, rfl, htable, ?_⟩
        simp only [htable]

/-- **What an accepted notify rewrote is put back**, for every manifest and every content of the tables. -/
theorem restore_undoes (g : GuestManifest) (s : Sys) (val num : Nat) {saved : SavedList} (hidle : s.saved = none)
    (h : (s.notify g val num).saved = some saved) : ((s.notify g val num).restore saved).mem = s.mem := by
  rcases notify_cases g s val num with ⟨-, hsaved⟩ | ⟨hpa, mem, l, -, -, -, htable, hnotify⟩
  · rw [hsaved, hidle] at h
    cases h
  · rw [hnotify] at h ⊢
    obtain rfl : l = saved := Option.some.inj h
    have hundo := translateTable_undo g num num hpa s.mem [] l
    rw [htable] at hundo
    exact hundo rfl

/-! ## A guest at its own addresses -/

/-- The entries of a table are the first one and those behind it. -/
theorem forall_entries {P : Nat → Prop} {k p : Nat} :
    (∀ j < k + 1, P (p + 16 * j)) ↔ P p ∧ ∀ j < k, P (p + 16 + 16 * j) := by
  rw [Nat.forall_lt_succ_left]
  simp only [Nat.mul_add, Nat.add_assoc, Nat.mul_zero, Nat.add_zero, Nat.mul_one, Nat.add_comm (16 * _) 16]

section Same

variable {g : GuestManifest} (hg : g.ipaBase = g.hpaBase)
include hg

theorem translateIndirect_accepts : ∀ (count p : Nat) (mem : Bytes) (saved : SavedList),
    (∃ l, (translateIndirect g count p mem saved).2 = some l) ↔
      ∀ j < count, ∃ b, g.translate (descAddr mem (p + 16 * j)) (descLen mem (p + 16 * j)) = some b
  | 0, p, mem, saved => ⟨fun _ _ hj => absurd hj (Nat.not_lt_zero _), fun _ => ⟨saved, rfl⟩⟩
  | k + 1, p, mem, saved => by
    rw [forall_entries (P := fun q => ∃ b, g.translate (descAddr mem q) (descLen mem q) = some b), translateIndirect]
    cases ht : g.translate (descAddr mem p) (descLen mem p) with
    | none => simp
    | some hpa =>
      obtain rfl : hpa = descAddr mem p := translate_same hg ht
      have hsame : putLe mem p 8 (descAddr mem p) = mem := putLe_leNat
      simp only [hsame]
      rw [translateIndirect_accepts k (p + 16) mem (saved ++ [(p, descAddr mem p)])]
      simp

/-- The table is accepted exactly when all of its entries are valid. -/
theorem translateTable_accepts (queueSize : Nat) : ∀ (count p : Nat) (mem : Bytes) (saved : SavedList),
    (∃ l, (translateTable g queueSize count p mem saved).2 = some l) ↔
      ∀ i < count, ValidDesc g queueSize mem (p + 16 * i)
  | 0, p, mem, saved => ⟨fun _ _ hi => absurd hi (Nat.not_lt_zero _), fun _ => ⟨saved, rfl⟩⟩
  | k + 1, p, mem, saved => by
    rw [forall_entries, translateTable]
    cases ht : g.translate (descAddr mem p) (descLen mem p) with
    | none => simp [ValidDesc, ht]
    | some hpa =>
      obtain rfl : hpa = descAddr mem p := translate_same hg ht
      have hsame : putLe mem p 8 (descAddr mem p) = mem := putLe_leNat
      have hrest := translateTable_accepts queueSize k (p + 16) mem
      simp only [hsame]
      by_cases hind : isIndirect mem p = true
      · rw [if_pos hind]
        by_cases hbad : descLen mem p = 0 ∨ descLen mem p % 16 ≠ 0 ∨ queueSize < descLen mem p / 16
        · rw [if_pos hbad]
          constructor
          · rintro ⟨l, hl⟩
            cases hl
          · rintro ⟨⟨a, -, hvalid⟩, -⟩
            obtain ⟨h₁, h₂, h₃, -⟩ := hvalid hind
            omega
        · rw [if_neg hbad]
          have hinner := translateIndirect_accepts hg (descLen mem p / 16) (descAddr mem p) mem
            (saved ++ [(p, descAddr mem p)])
          have hkeep := (translateIndirect_spec hg (descLen mem p / 16) (descAddr mem p) mem
            (saved ++ [(p, descAddr mem p)])).1
          have hvalid : ValidDesc g queueSize mem p ↔ ∀ j < descLen mem p / 16, ∃ b,
              g.translate (descAddr mem (descAddr mem p + 16 * j)) (descLen mem (descAddr mem p + 16 * j)) = some b := by
            constructor
            · rintro ⟨a, ha, h⟩
              obtain rfl : a = descAddr mem p := translate_same hg ha
              exact (h hind).2.2.2
            · exact fun h => ⟨descAddr mem p, ht, fun _ => ⟨by omega, by omega, by omega, h⟩⟩
          rw [hvalid, ← hinner]
          rcases htable : translateIndirect g (descLen mem p / 16) (descAddr mem p) mem (saved ++ [(p, descAddr mem p)])
            with ⟨mem', _ | saved'⟩
          · simp
          · rw [htable] at hkeep
            obtain rfl : mem' = mem := hkeep
            simp only [hrest saved', Option.some.injEq, exists_eq', true_and]
      · rw [if_neg hind, hrest]
        have hvalid : ValidDesc g queueSize mem p := ⟨descAddr mem p, ht, fun h => absurd h hind⟩
        exact ⟨fun h => ⟨hvalid, h⟩, And.right⟩

end Same

/-! ## Runs -/

section Runs

variable {g : GuestManifest}

/-- A stopped guest stays stopped. -/
theorem step_done {s s' : Sys} {e : Event} (hdone : s.done = true) (h : s.step g e = some s') : s'.done = true := by
  have hstopped : s.guestRuns = false := by simp [Sys.guestRuns, hdone]
  cases e with
  | write off val num => simp [Sys.step, hstopped] at h
  | read off => simp [Sys.step, hstopped] at h
  | store addr byte => simp [Sys.step, hstopped] at h
  | dma addr byte =>
    cases h
    exact hdone
  | restore =>
    obtain ⟨l, -, rfl⟩ := Option.map_eq_some_iff.1 h
    exact hdone

theorem run_done : ∀ (es : List Event) {s s' : Sys}, s.done = true → s.run g es = some s' → s'.done = true
  | [], s, s', hdone, h => by
    cases h
    exact hdone
  | e :: es, s, s', hdone, h => by
    obtain ⟨s₁, hs₁, hrest⟩ := Option.bind_eq_some_iff.1 h
    exact run_done es (step_done hdone hs₁) hrest

/-- The register after a write of a page number that did not stop the guest. -/
theorem step_queuePfn {s s' : Sys} {val num : Nat} (h : s.step g (.write 0x040 val num) = some s') (hrun : s'.done ≠ true) :
    ∃ hpa, g.translate (val * 4096 % 2 ^ 64) 4096 = some hpa ∧ s'.readPfn = hpa / 4096 % 2 ^ 32 := by
  rw [Sys.step] at h
  split at h
  · have hs' := Option.some.inj h
    cases ht : g.translate (val * 4096 % 2 ^ 64) 4096 with
    | none =>
      have hpfn : Sys.queuePfn g val = none := by rw [Sys.queuePfn, ht, Option.map_none]
      rw [Sys.mmioWrite, if_neg (by decide), if_pos rfl, hpfn] at hs'
      subst hs'
      exact absurd rfl hrun
    | some hpa =>
      have hpfn : Sys.queuePfn g val = some (hpa / 4096) := by rw [Sys.queuePfn, ht, Option.map_some]
      rw [Sys.mmioWrite, if_neg (by decide), if_pos rfl, hpfn] at hs'
      subst hs'
      refine ⟨hpa, rfl, ?_⟩
      simp [Sys.readPfn, Device.write, Device.setQueue]
  · cases h

end Runs

section Works

variable {g : GuestManifest} {s : Sys} {avail : Set Nat} {val num hpa pfn : Nat}

/-- The table is found at the address that the device has only if the two addresses of the guest's memory are one. -/
theorem Sys.NotifyWorks.same (h : s.NotifyWorks g avail val num hpa) : g.ipaBase = g.hpaBase := by
  have hfound := h.found
  rw [h.given] at hfound
  obtain ⟨h₁, -, h₂⟩ := translate_eq_some hfound
  omega

/-- An accepted notify has a size that the hypervisor takes, and a table of valid entries. -/
theorem Sys.NotifyWorks.valid (h : s.NotifyWorks g avail val num hpa) (hidle : s.saved = none) :
    num ≠ 0 ∧ num ≤ 1024 ∧ ∀ i < num, ValidDesc g num s.mem (hpa + 16 * i) := by
  obtain ⟨saved, hsaved, -⟩ := h.notified
  rcases notify_cases g s val num with ⟨-, hrefused⟩ | ⟨hpa', mem, l, h₁, h₂, hfound, htable, -⟩
  · rw [hrefused, hidle] at hsaved
    cases hsaved
  · obtain rfl : hpa = hpa' := Option.some.inj (h.found.symm.trans hfound)
    refine ⟨by omega, h₂, (translateTable_accepts h.same num num hpa s.mem []).1 ⟨l, ?_⟩⟩
    rw [htable]

/-- Nothing is rewritten for a guest at its own addresses. -/
theorem notify_mem (hg : g.ipaBase = g.hpaBase) (s : Sys) (val num : Nat) : (s.notify g val num).mem = s.mem := by
  unfold Sys.notify
  dsimp only
  split
  · rfl
  split
  · rfl
  next descHpa _ =>
  have hmem := (translateTable_spec hg num num descHpa s.mem []).1
  split
  · next heq =>
      rw [heq] at hmem
      exact hmem
  · next heq =>
      rw [heq] at hmem
      exact hmem

/-- The notify of a queue whose page number is in the register, for a guest at its own addresses. -/
theorem notifyWorks_of_same (hg : g.ipaBase = g.hpaBase) (hidle : s.saved = none) (hdone : s.done = false)
    (hgiven : s.readPfn * 4096 = hpa) (hfound : g.translate (s.readPfn * 4096) (num * 16) = some hpa) (hnum : num ≠ 0)
    (hmax : num ≤ 1024) (hvalid : ∀ i < num, ValidDesc g num s.mem (hpa + 16 * i)) :
    s.NotifyWorks g avail val num hpa := by
  have hmem := notify_mem hg s val num
  obtain ⟨l, hl⟩ := (translateTable_accepts hg num num hpa s.mem []).2 hvalid
  have haccept : s.notify g val num = { s with
      mem := (translateTable g num num hpa s.mem []).1, dev := s.dev.write 0x050 (val % 2 ^ 32), saved := some l } := by
    have htable : translateTable g num num hpa s.mem [] = ((translateTable g num num hpa s.mem []).1, some l) := by
      rw [← hl]
    unfold Sys.notify
    dsimp only
    rw [if_neg (by omega)]
    unfold Sys.readPfn at hfound
    simp only [hfound]
    rw [htable]
  have hsaved : (s.notify g val num).saved = some l := by rw [haccept]
  have hrun : (s.notify g val num).done = false := by
    rw [haccept]
    exact hdone
  refine ⟨hgiven, hfound, ⟨l, hsaved, hrun, ?_, restore_undoes g s val num hidle hsaved⟩, fun _ => hmem⟩
  intro i _ _ a ha
  rw [hmem]
  refine ⟨(translate_same hg ha).symm, fun _ j _ b hb => (translate_same hg hb).symm⟩

/-- **When a notify works**: a guest writes a page number whose table lies in its memory at `hpa`, and later, with the
number still in the register, it notifies the queue, having made valid descriptors available. -/
theorem notify_works_iff (g : GuestManifest) {s₀ s₁ s : Sys} {pfn n : Nat} {es : List Event} (avail : Set Nat)
    (val num hpa : Nat) (hwrite : s₀.step g (.write 0x040 pfn n) = some s₁) (hrun : s₁.run g es = some s)
    (hguest : s.guestRuns = true) (hback : s.readPfn = s₁.readPfn)
    (hlies : g.translate (pfn * 4096 % 2 ^ 64) (num * 16) = some hpa)
    (havail : ∀ i < num, i ∈ avail → ValidDesc g num s.mem (hpa + 16 * i)) :
    s.NotifyWorks g avail val num hpa ↔
      g.ipaBase = g.hpaBase ∧ pfn * 4096 % 2 ^ 64 < 2 ^ 44 ∧ num ≠ 0 ∧ num ≤ 1024 ∧
        ∀ i < num, i ∉ avail → ValidDesc g num s.mem (hpa + 16 * i) := by
  have hidle : s.done = false ∧ s.saved = none := by
    simpa [Sys.guestRuns] using hguest
  have hnotdone : s₁.done ≠ true := by
    intro hdone
    rw [run_done es hdone hrun] at hidle
    exact Bool.noConfusion hidle.1
  obtain ⟨page, hpage, hpfn⟩ := step_queuePfn hwrite hnotdone
  rw [← hback] at hpfn
  constructor
  · intro h
    have hsame := h.same
    obtain ⟨hnum, hmax, hvalid⟩ := h.valid hidle.2
    refine ⟨hsame, ?_, hnum, hmax, fun i hi _ => hvalid i hi⟩
    have hgiven := h.given
    rw [translate_same hsame hlies, hpfn] at hgiven
    have hlt := Nat.mod_lt (page / 4096) (Nat.two_pow_pos 32)
    omega
  · rintro ⟨hsame, hlow, hnum, hmax, hothers⟩
    have hhpa := translate_same hsame hlies
    have hpg := translate_same hsame hpage
    have hgiven : s.readPfn * 4096 = hpa := by
      rw [hpfn, hpg, hhpa]
      omega
    refine notifyWorks_of_same hsame hidle.2 hidle.1 hgiven ?_ hnum hmax fun i hi => ?_
    · rw [hgiven, hhpa]
      rw [hhpa] at hlies
      exact hlies
    · by_cases hi' : i ∈ avail
      · exact havail i hi hi'
      · exact hothers i hi hi'

end Works

/-- Guest 0 gives the device the page of one descriptor, and notifies it. -/
theorem notify_works_oneDescriptor :
    ∃ s, (Sys.boot oneDescriptor).step (guestManifests 0) (.write 0x040 0x40200 0) = some s ∧
      s.NotifyWorks (guestManifests 0) Set.univ 0 1 0x40200000 := by
  have hwrite : (Sys.boot oneDescriptor).step (guestManifests 0) (.write 0x040 0x40200 0) =
      some ((Sys.boot oneDescriptor).mmioWrite (guestManifests 0) 0x040 0x40200 0) := rfl
  have hrun : ((Sys.boot oneDescriptor).mmioWrite (guestManifests 0) 0x040 0x40200 0).run (guestManifests 0) [] =
      some ((Sys.boot oneDescriptor).mmioWrite (guestManifests 0) 0x040 0x40200 0) := rfl
  refine ⟨_, hwrite, ?_⟩
  have hlies : (guestManifests 0).translate (0x40200 * 4096 % 2 ^ 64) (1 * 16) = some 0x40200000 := by decide +kernel
  refine (notify_works_iff (guestManifests 0) Set.univ 0 1 0x40200000 hwrite hrun (by decide +kernel) rfl hlies
    fun i hi _ => ?_).2 ⟨rfl, by decide, by decide, by decide, fun i _ hi => absurd (Set.mem_univ i) hi⟩
  obtain rfl : i = 0 := by omega
  exact ⟨0x40210000, by decide +kernel, fun hind => absurd hind (by decide +kernel)⟩

/-- The same descriptor in the memory of guest 1. -/
def secondDescriptor : Bytes := putLe (putLe (fun _ => 0) 0x44200000 8 0x40210000) 0x44200008 4 512

/-- Guest 1 gives the device the page of one valid descriptor. The number is translated, and on the notify it is taken for
one of the guest's again. -/
theorem notify_fails_secondDescriptor :
    ∃ s, (Sys.boot secondDescriptor).step (guestManifests 1) (.write 0x040 0x40200 0) = some s ∧ s.guestRuns = true ∧
      s.readPfn = 0x44200 ∧ (guestManifests 1).translate (0x40200 * 4096) (1 * 16) = some 0x44200000 ∧
      (∀ i < 1, ValidDesc (guestManifests 1) 1 s.mem (0x44200000 + 16 * i)) ∧
      (s.notify (guestManifests 1) 0 1).done = true ∧
      ∀ avail, ¬ s.NotifyWorks (guestManifests 1) avail 0 1 0x44200000 := by
  refine ⟨_, rfl, by decide +kernel, by decide +kernel, by decide +kernel, fun i hi => ?_, by decide +kernel, fun avail h => ?_⟩
  · obtain rfl : i = 0 := by omega
    exact ⟨0x44210000, by decide +kernel, fun hind => absurd hind (by decide +kernel)⟩
  · exact absurd h.same (by decide)

end Koros.Hv
