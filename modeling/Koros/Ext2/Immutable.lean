import Koros.Ext2.Refusal

/-!
# Read-only mounts are immutable

`truncate` stores into the inode before it fails, unless it first comes to a block that it has to free or to a pointer
that it has to clear (`truncate_fails`). Over every run in which no `setattr` and no other `truncate` is called, and in
which `link`, `unlink`, `rmdir` and `rename` are called on sound directories, a read-only mount does not change: no block
is written, every call that would change the filesystem returns an error, and every query returns what it returned before
(`read_only_immutable`).
-/
set_option autoImplicit false

namespace Koros.Ext2

open Koros.Lib Xattr

/-! ## What a truncation comes to -/

/-- The indirect block with the pointer of a logical block, 0 if there is none. -/
def slotBlock (ino logicalBlock : Nat) : FsM Nat := do
  let p ← ptrsPerBlock
  let r ← raw ino
  let indirectLimit := DIRECT_BLOCKS + p
  let doubleLimit := indirectLimit + p * p
  if logicalBlock < DIRECT_BLOCKS then return 0
  else if logicalBlock < indirectLimit then return r.block 12
  else if logicalBlock < doubleLimit then
    if r.block 13 = 0 then return 0 else readIndirectEntry (r.block 13) ((logicalBlock - indirectLimit) / p)
  else if r.block 14 = 0 then return 0
  else
    let l2 ← readIndirectEntry (r.block 14) ((logicalBlock - doubleLimit) / (p * p))
    if l2 = 0 then return 0 else readIndirectEntry l2 ((logicalBlock - doubleLimit) / p % p)

/-- A logical block that is there, or whose pointer is in an indirect block. -/
def Cuttable (fs : Ext2Fs) (ino logicalBlock : Nat) : Prop :=
  outcome (resolveBlockId ino logicalBlock fs) ≠ .ok 0 ∨ outcome (slotBlock ino logicalBlock fs) ≠ .ok 0

/-- A tree of indirect blocks in which one holds no pointer, or is not on the device. -/
inductive Hollow (fs : Ext2Fs) : (level block : Nat) → Prop
  | missing {level block : Nat} : block ≠ 0 → fs.deviceBlocks ≤ block → Hollow fs (level + 1) block
  | empty {level block : Nat} : block ≠ 0 →
    (∀ i < fs.blockSize / 4, leNat (fs.disk block) (i * 4) 4 = 0) → Hollow fs (level + 1) block
  | child {level block i : Nat} : block ≠ 0 → i < fs.blockSize / 4 → level ≠ 0 →
    Hollow fs level (leNat (fs.disk block) (i * 4) 4) → Hollow fs (level + 1) block

/-- A truncation that comes to a block or a pointer before it stores into the inode `r`. -/
def Releases (fs : Ext2Fs) (ino newSize : Nat) (r : RawInode) : Prop :=
  (newSize = 0 ∧ ∃ k < 15, r.block k ≠ 0) ∨
  (newSize ≠ 0 ∧ ∃ cur, outcome (size ino fs) = .ok cur ∧ newSize < cur ∧
    ((∃ lb, divCeil newSize fs.blockSize % 2 ^ 32 ≤ lb ∧ lb < divCeil cur fs.blockSize % 2 ^ 32 ∧ Cuttable fs ino lb) ∨
      ∃ slot ∈ [12, 13, 14], Hollow fs (slot - 11) (r.block slot)))

section Truncate

variable {fs₀ fs fs' : Ext2Fs} {S : List Nat} {α : Type} {ino : Nat}

theorem slotBlock_reads (lb : Nat) : Reads Reported (Peer ino) (slotBlock ino lb) := by
  unfold slotBlock
  apply (reads_peer ptrsPerBlock_reads).bind
  intro p
  apply reads_raw
  · intro r r' h
    simp only [h.block_eq]
  · intro r
    have hentry : ∀ b i, Reads Reported (Peer ino) (readIndirectEntry b i) :=
      fun b i => reads_peer (readIndirectEntry_reads b i)
    dsimp only
    split
    · exact Reads.pure _
    · split
      · exact Reads.pure _
      · split
        · split
          · exact Reads.pure _
          · exact hentry _ _
        · split
          · exact Reads.pure _
          · apply (hentry _ _).bind
            intro l2
            split
            · exact Reads.pure _
            · exact hentry _ _

theorem Cuttable.peer {lb : Nat} (h : Cuttable fs ino lb) (hpeer : Peer ino fs fs') : Cuttable fs' ino lb := by
  unfold Cuttable
  rw [← (resolveBlockId_reads lb).outcome_eq hpeer, ← (slotBlock_reads lb).outcome_eq hpeer]
  exact h

theorem Hollow.alike {level block : Nat} (h : Hollow fs level block) (hbare : fs.bare = fs'.bare) :
    Hollow fs' level block := by
  have hdisk : fs.bare.disk = fs'.bare.disk := by rw [hbare]
  have hdev : fs.bare.deviceBlocks = fs'.bare.deviceBlocks := by rw [hbare]
  have hsize : fs.bare.blockSize = fs'.bare.blockSize := by rw [hbare]
  change fs.disk = fs'.disk at hdisk
  change fs.deviceBlocks = fs'.deviceBlocks at hdev
  change fs.blockSize = fs'.blockSize at hsize
  induction h with
  | missing h₀ hge => exact .missing h₀ (hdev ▸ hge)
  | empty h₀ hzero => exact .empty h₀ (by rwa [← hdisk, ← hsize])
  | child h₀ hi hlevel _ ih => exact .child h₀ (hsize ▸ hi) hlevel (by rwa [← hdisk])

theorem Hollow.ne_zero {level block : Nat} (h : Hollow fs level block) : block ≠ 0 := by
  cases h <;> assumption

/-- The inode in memory is that of the disk. -/
theorem fails_raw {f : RawInode → FsM α} (hino : ino ∈ S)
    (hf : ∀ fs r, Unchanged fs₀ S fs → fs.inodeCache ino = some r → ∃ e fs', f r fs = .error e fs' ∧ Reported e ∧
      Unchanged fs₀ S fs') : Fails Reported (Unchanged fs₀ S) (raw ino >>= f) := by
  intro fs h
  obtain ⟨r, hr⟩ := h.held ino hino
  rw [bind_ok (raw_eq hr)]
  exact hf fs r h hr

variable (hro : fs₀.readOnly = true)

include hro

theorem writeIndirectEntry_fails (b i v : Nat) : Fails Reported (Unchanged fs₀ S) (writeIndirectEntry b i v) := by
  unfold writeIndirectEntry
  apply Fails.get_bind
  intro fs h
  apply Fails.bind (reads_disk (readFsBlock_reads b))
  intro buf
  split
  · exact fails_fail _
  · exact writeFsBlock_fails hro _ _

/-! ### Freeing all blocks -/

theorem freeIndirect_keeps (level : Nat) : ∀ b, Keeps Reported (Unchanged fs₀ S) (freeIndirect level b) := by
  induction level with
  | zero => exact fun b => Keeps.pure _
  | succ level ih =>
    intro b
    unfold freeIndirect
    split
    · exact Keeps.pure _
    · apply Keeps.bind (reads_disk (readIndirectBlock_reads b))
      intro ptrs
      apply Keeps.bind
      · apply Keeps.forM
        intro p _
        split
        · exact Keeps.pure _
        · split
          · exact (freeBlock_fails hro p).keeps
          · exact ih p
      · intro _
        exact (freeBlock_fails hro b).keeps

theorem freeIndirect_fails (level : Nat) {b : Nat} (hb : b ≠ 0) :
    Fails Reported (Unchanged fs₀ S) (freeIndirect (level + 1) b) := by
  unfold freeIndirect
  rw [if_neg hb]
  apply Fails.bind (reads_disk (readIndirectBlock_reads b))
  intro ptrs
  apply Fails.bind
  · apply Keeps.forM
    intro p _
    split
    · exact Keeps.pure _
    · split
      · exact (freeBlock_fails hro p).keeps
      · exact freeIndirect_keeps hro level p
  · intro _
    exact freeBlock_fails hro b

theorem freeAllBlocks_fails (hino : ino ∈ S)
    (hblock : ∀ fs r, Unchanged fs₀ S fs → fs.inodeCache ino = some r → ∃ k < 15, r.block k ≠ 0) :
    Fails Reported (Unchanged fs₀ S) (freeAllBlocks ino) := by
  unfold freeAllBlocks
  apply fails_raw hino
  intro fs r h hr
  obtain ⟨k, hk, hne⟩ := hblock fs r h hr
  have hdirect : ∀ j ∈ List.range DIRECT_BLOCKS, Keeps Reported (Unchanged fs₀ S)
      (if r.block j = 0 then return else freeBlock (r.block j)) := by
    intro j _
    split
    · exact Keeps.pure _
    · exact (freeBlock_fails hro _).keeps
  refine (?_ : Fails Reported (Unchanged fs₀ S) _) fs h
  by_cases hk12 : k < DIRECT_BLOCKS
  · apply Fails.bind_left
    apply Fails.forM _ hdirect (List.mem_range.2 hk12)
    rw [if_neg hne]
    exact freeBlock_fails hro _
  · apply Fails.bind (Keeps.forM _ hdirect)
    intro _
    have hcases : k = 12 ∨ k = 13 ∨ k = 14 := by
      unfold DIRECT_BLOCKS at hk12
      omega
    rcases hcases with rfl | rfl | rfl
    · exact (freeIndirect_fails hro 0 hne).bind_left
    · exact Fails.bind (freeIndirect_keeps hro _ _) fun _ => (freeIndirect_fails hro 1 hne).bind_left
    · apply Fails.bind (freeIndirect_keeps hro _ _)
      intro _
      exact Fails.bind (freeIndirect_keeps hro _ _) fun _ => (freeIndirect_fails hro 2 hne).bind_left

/-! ### Clearing pointers -/

omit hro in
/-- A pointer that is 0 is cleared. -/
theorem setBlock_zero {r : RawInode} {k : Nat} (h : r.block k = 0) : r.setBlock k 0 = r := by
  have hput : putLe r.bytes (40 + 4 * k) 4 0 = r.bytes := by
    have hget : leNat r.bytes (40 + 4 * k) 4 = 0 := h
    have hback := @putLe_leNat r.bytes (40 + 4 * k) 4
    rwa [hget] at hback
  apply RawInode.ext
  funext j
  show (if j < 128 then putLe r.bytes (40 + 4 * k) 4 0 j else 0) = r.bytes j
  rw [hput]
  split
  · rfl
  · rename_i hj
    exact (r.tail j (by omega)).symm

omit hro in
theorem readIndirectEntry_cases (h : Unchanged fs₀ S fs) (b i : Nat) :
    (∃ e, readIndirectEntry b i fs = .error e fs ∧ Reported e) ∨ ∃ v, readIndirectEntry b i fs = .ok v fs := by
  obtain ⟨o, ho, hrun, -⟩ := readIndirectEntry_reads b i fs fs (h.alike h)
  cases o with
  | error e => exact .inl ⟨e, hrun, ho⟩
  | ok v => exact .inr ⟨v, hrun⟩

/-- A call that fails or leaves everything as it is; the second only if `P`. -/
def Stops (fs₀ : Ext2Fs) (S : List Nat) (P : Prop) (r : EStateM.Result Fault Ext2Fs PUnit) : Prop :=
  (∃ e fs', r = .error e fs' ∧ Reported e ∧ Unchanged fs₀ S fs') ∨ (∃ fs', r = .ok ⟨⟩ fs' ∧ Unchanged fs₀ S fs') ∧ P

omit hro in
theorem Stops.mono {P Q : Prop} {x : EStateM.Result Fault Ext2Fs PUnit} (h : Stops fs₀ S P x) (hPQ : P → Q) :
    Stops fs₀ S Q x := h.imp_right fun hx => ⟨hx.1, hPQ hx.2⟩

/-- The pointer in the indirect block that entry `i` of `b` names, if there is such a block. -/
theorem clearIn_stops (h : Unchanged fs₀ S fs) (b i j : Nat) :
    Stops fs₀ S (outcome (readIndirectEntry b i fs) = .ok 0) ((do
      let leaf ← readIndirectEntry b i
      if leaf ≠ 0 then writeIndirectEntry leaf j 0) fs) := by
  rcases readIndirectEntry_cases h b i with ⟨e, hrun, he⟩ | ⟨leaf, hrun⟩
  · exact .inl ⟨e, fs, bind_error hrun, he, h⟩
  · rw [bind_ok hrun]
    by_cases hleaf : leaf = 0
    · rw [if_neg (not_not_intro hleaf)]
      exact .inr ⟨⟨fs, rfl, h⟩, by rw [hrun, hleaf]; rfl⟩
    · rw [if_pos hleaf]
      exact .inl (writeIndirectEntry_fails hro _ _ _ fs h)

theorem freeAndClearLogical_stops (h : Unchanged fs₀ S fs) (hino : ino ∈ S) (lb : Nat) :
    Stops fs₀ S (¬ Cuttable fs ino lb) (freeAndClearLogical ino lb fs) := by
  obtain ⟨o, ho, hresolve, -⟩ := resolveBlockId_reads lb fs fs (h.peer h hino hino)
  obtain ⟨r, hr⟩ := h.held ino hino
  unfold freeAndClearLogical
  cases o with
  | error e => exact .inl ⟨e, fs, bind_error hresolve, ho, h⟩
  | ok phys =>
    rw [bind_ok hresolve]
    by_cases hphys : phys ≠ 0
    · rw [if_pos hphys]
      exact .inl ((freeBlock_fails hro phys).bind_left fs h)
    · have hzero : phys = 0 := Decidable.not_not.1 hphys
      subst hzero
      have hhole : outcome (resolveBlockId ino lb fs) = .ok 0 := by rw [hresolve]; rfl
      -- a hole is cleared, and only if no indirect block is there to hold the pointer
      have hdone : outcome (slotBlock ino lb fs) = .ok 0 → ¬ Cuttable fs ino lb :=
        fun hslot hcut => hcut.elim (· hhole) (· hslot)
      have hskip : outcome (slotBlock ino lb fs) = .ok 0 → Stops fs₀ S (¬ Cuttable fs ino lb) (.ok ⟨⟩ fs) :=
        fun hslot => .inr ⟨⟨fs, rfl, h⟩, hdone hslot⟩
      have hslot : slotBlock ino lb fs = (raw ino >>= _) fs := rfl
      rw [bind_ok (raw_eq hr)] at hslot
      rw [if_neg hphys]
      show Stops fs₀ S _ ((raw ino >>= _) fs)
      rw [bind_ok (raw_eq hr)]
      dsimp only at hslot ⊢
      split at hslot
      · rename_i hdirect
        have hblock : r.block lb = 0 := by
          have hrun : resolveBlockId ino lb fs = (raw ino >>= _) fs := rfl
          rw [bind_ok (raw_eq hr)] at hrun
          dsimp only at hrun
          rw [if_pos hdirect, hresolve] at hrun
          injection hrun with hrun
          exact hrun.symm
        rw [if_pos hdirect, modifyRaw_eq hr, setBlock_zero hblock, ← hr, Function.update_eq_self]
        exact hskip (by rw [hslot]; rfl)
      · rename_i hdirect
        rw [if_neg hdirect]
        split at hslot
        · rename_i hsingle
          rw [if_pos hsingle]
          by_cases h₁₂ : r.block 12 = 0
          · rw [if_neg (not_not_intro h₁₂)]
            exact hskip (by rw [hslot, h₁₂]; rfl)
          · rw [if_pos h₁₂]
            exact .inl (writeIndirectEntry_fails hro _ _ _ fs h)
        · rename_i hsingle
          rw [if_neg hsingle]
          split at hslot
          · rename_i hdouble
            rw [if_pos hdouble]
            by_cases h₁₃ : r.block 13 = 0
            · rw [if_neg (not_not_intro h₁₃)]
              rw [if_pos h₁₃] at hslot
              exact hskip (by rw [hslot]; rfl)
            · rw [if_pos h₁₃]
              rw [if_neg h₁₃] at hslot
              exact (clearIn_stops hro h _ _ _).mono fun hleaf => hdone (by rw [hslot]; exact hleaf)
          · rename_i hdouble
            rw [if_neg hdouble]
            by_cases h₁₄ : r.block 14 = 0
            · rw [if_neg (not_not_intro h₁₄)]
              rw [if_pos h₁₄] at hslot
              exact hskip (by rw [hslot]; rfl)
            · rw [if_pos h₁₄]
              rw [if_neg h₁₄] at hslot
              rcases readIndirectEntry_cases h (r.block 14)
                ((lb - (DIRECT_BLOCKS + fs.blockSize / 4 + fs.blockSize / 4 * (fs.blockSize / 4))) /
                  (fs.blockSize / 4 * (fs.blockSize / 4))) with ⟨e, hrun, he⟩ | ⟨l2, hrun⟩
              · exact .inl ⟨e, fs, bind_error hrun, he, h⟩
              · rw [bind_ok hrun] at hslot ⊢
                by_cases hl2 : l2 = 0
                · rw [if_neg (not_not_intro hl2)]
                  rw [if_pos hl2] at hslot
                  exact hskip (by rw [hslot]; rfl)
                · rw [if_pos hl2]
                  rw [if_neg hl2] at hslot
                  exact (clearIn_stops hro h _ _ _).mono fun hleaf => hdone (by rw [hslot]; exact hleaf)

/-! ### Pruning -/

omit hro in
theorem readIndirectBlock_cases (h : Unchanged fs₀ S fs) (b : Nat) :
    readIndirectBlock b fs = .ok ((List.range (fs₀.blockSize / 4)).map fun i => leNat (fs₀.disk b) (i * 4) 4) fs ∨
      (fs₀.deviceBlocks ≤ b ∧ readIndirectBlock b fs = .error (.err .ioError) fs) := by
  have hdisk : fs.bare.disk = fs₀.bare.disk := by rw [h.bare]
  have hdev : fs.bare.deviceBlocks = fs₀.bare.deviceBlocks := by rw [h.bare]
  change fs.disk = fs₀.disk at hdisk
  change fs.deviceBlocks = fs₀.deviceBlocks at hdev
  rw [readIndirectBlock, get_bind]
  by_cases hb : b < fs.deviceBlocks
  · left
    rw [bind_ok (readFsBlock_eq hb), hdisk, h.blockSize_eq]
    rfl
  · right
    refine ⟨by omega, bind_error ?_⟩
    rw [readFsBlock, get_bind, if_neg hb]
    rfl

/-- Behind the first pointer, which is freed or not. -/
theorem pruneRest_keeps {prune : Nat → FsM Bool} {p : Nat} {ptrs : List Nat}
    (ih : Keeps Reported (Unchanged fs₀ S) (pruneEntries prune ptrs)) (freed : Bool) :
    Keeps Reported (Unchanged fs₀ S) (do
      if freed then freeBlock p
      let (rest, changed) ← pruneEntries prune ptrs
      return ((if freed then 0 else p) :: rest, freed || changed)) := by
  cases freed with
  | true => exact (freeBlock_fails hro p).bind_left.keeps
  | false => exact Keeps.bind ih fun _ => Keeps.pure _

theorem pruneEntries_keeps {prune : Nat → FsM Bool} (hprune : ∀ p, Keeps Reported (Unchanged fs₀ S) (prune p))
    (ptrs : List Nat) : Keeps Reported (Unchanged fs₀ S) (pruneEntries prune ptrs) := by
  induction ptrs with
  | nil => exact Keeps.pure _
  | cons p ptrs ih =>
    unfold pruneEntries
    split
    · exact Keeps.bind (Keeps.pure _) (pruneRest_keeps hro ih)
    · exact Keeps.bind (hprune p) (pruneRest_keeps hro ih)

theorem pruneIndirect_keeps (level : Nat) : ∀ b, Keeps Reported (Unchanged fs₀ S) (pruneIndirect level b) := by
  induction level with
  | zero => exact fun b => Keeps.pure _
  | succ level ih =>
    intro b
    unfold pruneIndirect
    split
    · exact Keeps.pure _
    · apply Keeps.bind (reads_disk (readIndirectBlock_reads b))
      intro ptrs
      split
      · exact Keeps.pure _
      · apply Keeps.bind (pruneEntries_keeps hro ih ptrs)
        intro res
        split
        split
        · exact (writeFsBlock_fails hro _ _).bind_left.keeps
        · exact Keeps.pure _

/-- Pruning that fails or finds the block empty. -/
def EndsEmpty (fs₀ : Ext2Fs) (S : List Nat) (x : FsM Bool) : Prop :=
  ∀ fs, Unchanged fs₀ S fs → (∃ e fs', x fs = .error e fs' ∧ Reported e ∧ Unchanged fs₀ S fs') ∨ x fs = .ok true fs

omit hro in
theorem pruneEntries_zero {prune : Nat → FsM Bool} {ptrs : List Nat} (hptrs : ∀ p ∈ ptrs, p = 0) :
    pruneEntries prune ptrs fs = .ok (ptrs, false) fs := by
  induction ptrs with
  | nil => rfl
  | cons p ptrs ih =>
    obtain rfl := hptrs p (List.mem_cons_self ..)
    have hrest := ih fun q hq => hptrs q (List.mem_cons_of_mem _ hq)
    show (pruneEntries prune ptrs >>= _) fs = _
    rw [bind_ok hrest]
    rfl

theorem pruneRest_fails {prune : Nat → FsM Bool} {p : Nat} {ptrs : List Nat}
    (ih : Fails Reported (Unchanged fs₀ S) (pruneEntries prune ptrs)) (freed : Bool) :
    Fails Reported (Unchanged fs₀ S) (do
      if freed then freeBlock p
      let (rest, changed) ← pruneEntries prune ptrs
      return ((if freed then 0 else p) :: rest, freed || changed)) := by
  cases freed with
  | true => exact (freeBlock_fails hro p).bind_left
  | false => exact ih.bind_left

/-- An empty block below is to be freed. -/
theorem pruneEntries_fails {prune : Nat → FsM Bool} (hprune : ∀ p, Keeps Reported (Unchanged fs₀ S) (prune p))
    {ptrs : List Nat} {q : Nat} (hq : q ∈ ptrs) (hne : q ≠ 0) (hempty : EndsEmpty fs₀ S (prune q)) :
    Fails Reported (Unchanged fs₀ S) (pruneEntries prune ptrs) := by
  induction ptrs with
  | nil => cases hq
  | cons p ptrs ih =>
    unfold pruneEntries
    by_cases hpq : p = q
    · subst hpq
      rw [if_neg hne]
      intro fs h
      rcases hempty fs h with ⟨e, fs', hrun, he, hfs'⟩ | hrun
      · exact ⟨e, fs', bind_error hrun, he, hfs'⟩
      · rw [bind_ok hrun]
        exact (freeBlock_fails hro p).bind_left fs h
    · have hq' : q ∈ ptrs := (List.mem_cons.1 hq).resolve_left (Ne.symm hpq)
      split
      · exact Fails.bind (Keeps.pure _) (pruneRest_fails hro (ih hq'))
      · exact Fails.bind (hprune p) (pruneRest_fails hro (ih hq'))

theorem pruneIndirect_hollow {level b : Nat} (hhollow : Hollow fs₀ level b) :
    EndsEmpty fs₀ S (pruneIndirect level b) := by
  induction hhollow with
  | @missing level b hb hge =>
    intro fs h
    unfold pruneIndirect
    rw [if_neg hb]
    rcases readIndirectBlock_cases h b with hrun | ⟨-, hrun⟩
    · rw [readIndirectBlock, get_bind] at hrun
      obtain ⟨buf, fs', hread, -⟩ := bind_eq_ok hrun
      have hdev : fs.bare.deviceBlocks = fs₀.bare.deviceBlocks := by rw [h.bare]
      change fs.deviceBlocks = fs₀.deviceBlocks at hdev
      rw [readFsBlock, get_bind, if_neg (by omega)] at hread
      cases hread
    · exact .inl ⟨_, fs, bind_error hrun, reported _, h⟩
  | @empty level b hb hzero =>
    intro fs h
    unfold pruneIndirect
    rw [if_neg hb]
    rcases readIndirectBlock_cases h b with hrun | ⟨-, hrun⟩
    · have hall : ∀ p ∈ (List.range (fs₀.blockSize / 4)).map (fun i => leNat (fs₀.disk b) (i * 4) 4), p = 0 := by
        intro p hp
        obtain ⟨i, hi, rfl⟩ := List.mem_map.1 hp
        exact hzero i (List.mem_range.1 hi)
      have htrue := List.all_eq_true.2 fun p hp => decide_eq_true (hall p hp)
      right
      rw [bind_ok hrun]
      split
      · rw [htrue]
        rfl
      · rw [bind_ok (pruneEntries_zero hall)]
        show EStateM.Result.ok _ fs = _
        rw [htrue]
    · exact .inl ⟨_, fs, bind_error hrun, reported _, h⟩
  | @child level b i hb hi hlevel hbelow ih =>
    intro fs h
    unfold pruneIndirect
    rw [if_neg hb]
    rcases readIndirectBlock_cases h b with hrun | ⟨-, hrun⟩
    · left
      rw [bind_ok hrun, if_neg hlevel]
      have hmem : leNat (fs₀.disk b) (i * 4) 4 ∈
          (List.range (fs₀.blockSize / 4)).map (fun i => leNat (fs₀.disk b) (i * 4) 4) :=
        List.mem_map.2 ⟨i, List.mem_range.2 hi, rfl⟩
      exact (pruneEntries_fails hro (pruneIndirect_keeps hro level) hmem hbelow.ne_zero ih).bind_left fs h
    · exact .inl ⟨_, fs, bind_error hrun, reported _, h⟩

/-- One of the three trees. -/
theorem pruneSlot_keeps (hino : ino ∈ S) (slot : Nat) : Keeps Reported (Unchanged fs₀ S) (do
    let r ← raw ino
    if r.block slot ≠ 0 then
      if ← pruneIndirect (slot - 11) (r.block slot) then
        freeBlock (r.block slot)
        modifyRaw ino fun r => r.setBlock slot 0) := by
  apply Keeps.bind (raw_keeps hino)
  intro r
  split
  · apply Keeps.bind (pruneIndirect_keeps hro _ _)
    intro empty
    split
    · exact (freeBlock_fails hro _).bind_left.keeps
    · exact Keeps.pure _
  · exact Keeps.pure _

theorem pruneEmptyIndirects_fails (hino : ino ∈ S) {slot : Nat} (hslot : slot ∈ [12, 13, 14])
    (hhollow : ∀ fs r, Unchanged fs₀ S fs → fs.inodeCache ino = some r → Hollow fs₀ (slot - 11) (r.block slot)) :
    Fails Reported (Unchanged fs₀ S) (pruneEmptyIndirects ino) := by
  apply Fails.forM _ (fun slot _ => pruneSlot_keeps hro hino slot) hslot
  apply fails_raw hino
  intro fs r h hr
  have hh := hhollow fs r h hr
  rw [if_pos hh.ne_zero]
  rcases pruneIndirect_hollow hro hh fs h with ⟨e, fs', hrun, he, hfs'⟩ | hrun
  · exact ⟨e, fs', bind_error hrun, he, hfs'⟩
  · rw [bind_ok hrun, if_pos rfl]
    exact (freeBlock_fails hro _).bind_left fs h

/-! ### The truncation -/

theorem freeAndClearLogical_keeps (hino : ino ∈ S) (lb : Nat) :
    Keeps Reported (Unchanged fs₀ S) (freeAndClearLogical ino lb) := by
  intro fs h
  rcases freeAndClearLogical_stops hro h hino lb with ⟨e, fs', hrun, he, hfs'⟩ | ⟨⟨fs', hrun, hfs'⟩, -⟩
  · rw [hrun]
    exact ⟨he, hfs'⟩
  · rw [hrun]
    exact ⟨trivial, hfs'⟩

theorem freeAndClearLogical_fails (hino : ino ∈ S) {lb : Nat}
    (hcut : ∀ fs, Unchanged fs₀ S fs → Cuttable fs ino lb) :
    Fails Reported (Unchanged fs₀ S) (freeAndClearLogical ino lb) := fun fs h =>
  (freeAndClearLogical_stops hro h hino lb).resolve_right fun hdone => hdone.2 (hcut fs h)

theorem truncateTo_fails (h : Unchanged fs₀ S fs) (hino : ino ∈ S) {newSize : Nat} {r : RawInode}
    (hr : fs.inodeCache ino = some r) (hrel : Releases fs ino newSize r) :
    ∃ e fs', truncateTo ino newSize fs = .error e fs' ∧ Reported e ∧ Unchanged fs₀ S fs' := by
  -- every state that the call goes through has the same inode in memory
  have hsame : ∀ fs' r', Unchanged fs₀ S fs' → fs'.inodeCache ino = some r' → r.Same r' := by
    intro fs' r' h' hr'
    obtain ⟨-, r₁, r₂, h₁, h₂, hsame⟩ := h.peer h' hino hino
    rw [hr] at h₁
    rw [hr'] at h₂
    cases h₁
    cases h₂
    exact hsame
  obtain ⟨o, ho, hsize, -⟩ := @size_reads ino fs fs (h.peer h hino hino)
  unfold truncateTo
  cases o with
  | error e => exact ⟨e, fs, bind_error hsize, ho, h⟩
  | ok cur =>
    rw [bind_ok hsize, get_bind]
    rcases hrel with ⟨hzero, k, hk, hne⟩ | ⟨hpos, cur', hcur', hlt, hrel⟩
    · rw [if_pos hzero]
      apply Fails.bind_left _ fs h
      exact freeAllBlocks_fails hro hino fun fs' r' h' hr' => ⟨k, hk, (hsame fs' r' h' hr').block_eq k ▸ hne⟩
    · have hcur : cur = cur' := by
        rw [hsize] at hcur'
        injection hcur'
      subst hcur
      rw [if_neg hpos, if_neg (by omega)]
      refine (?_ : Fails Reported (Unchanged fs₀ S) _) fs h
      have hfree : ∀ lb ∈ List.range' (divCeil newSize fs.blockSize % 2 ^ 32)
          (divCeil cur fs.blockSize % 2 ^ 32 - divCeil newSize fs.blockSize % 2 ^ 32),
          Keeps Reported (Unchanged fs₀ S) (freeAndClearLogical ino lb) :=
        fun lb _ => freeAndClearLogical_keeps hro hino lb
      rcases hrel with ⟨lb, hkeep, hold, hcut⟩ | ⟨slot, hslot, hhollow⟩
      · apply Fails.bind_left
        apply Fails.forM _ hfree (d := lb)
        · exact List.mem_range'_1.2 ⟨hkeep, by omega⟩
        · exact freeAndClearLogical_fails hro hino fun fs' h' => hcut.peer (h.peer h' hino hino)
      · apply Fails.bind (Keeps.forM _ hfree)
        intro _
        apply Fails.bind_left
        apply pruneEmptyIndirects_fails hro hino hslot
        intro fs' r' h' hr'
        rw [← (hsame fs' r' h' hr').block_eq]
        exact hhollow.alike h.bare

/-- **`truncate`** fails if it comes to a block or a pointer, or if the inode is no regular file. -/
theorem truncate_fails (h : Unchanged fs₀ S fs) (hino : ino ∈ S) {newSize : Nat}
    (hrel : ∀ r, fs.inodeCache ino = some r → r.fmt = EXT2_S_IFREG → Releases fs ino newSize r) :
    ∃ e fs', truncate ino newSize fs = .error e fs' ∧ Reported e ∧ Unchanged fs₀ S fs' := by
  obtain ⟨r, hr⟩ := h.held ino hino
  unfold truncate
  rw [bind_ok (raw_eq hr)]
  by_cases hreg : r.fmt = EXT2_S_IFREG
  · rw [if_neg (not_not_intro hreg)]
    exact truncateTo_fails hro h hino hr (hrel r hr hreg)
  · rw [if_pos hreg]
    exact fails_fail _ fs h

end Truncate

/-! ## Runs -/

/-- What can be asked of a mount. -/
inductive Query where
  | getattr (ino : Nat)
  | readAt (ino offset len : Nat)
  | list (ino : Nat)
  | readlink (ino : Nat)
  | getxattr (ino : Nat) (name : String)
  | listxattr (ino : Nat)
  | info

inductive Answer where
  | metadata (m : Metadata)
  | data (buf : Bytes) (n : Nat)
  | entries (l : List (String × Nat))
  | target (s : String)
  | value (v : List Byte)
  | names (l : List String)
  | info (i : FsInfo)

def ask : Query → FsM Answer
  | .getattr ino => return .metadata (← getattr ino)
  | .readAt ino offset len => do
    let (buf, n) ← readAt ino offset len
    return .data buf n
  | .list ino => return .entries (← dirList ino)
  | .readlink ino => return .target (← readlink ino)
  | .getxattr ino name => return .value (← getxattr ino name)
  | .listxattr ino => return .names (← listxattr ino)
  | .info => return .info (← info)

/-- The handle that a query is made on. -/
def Query.handles : Query → List Nat
  | .getattr ino | .readAt ino .. | .list ino | .readlink ino | .getxattr ino _ | .listxattr ino => [ino]
  | .info => []

/-- A call on a mount. `open` gives a handle of an inode, `forget` is the end of the last handle of one. -/
inductive Call where
  | open (n : Nat)
  | forget (n : Nat)
  | query (q : Query)
  | lookup (dir : Nat) (name : String)
  | writeAt (ino offset : Nat) (buf : Bytes) (len : Nat)
  | truncate (ino size : Nat)
  | setattr (ino : Nat) (m : Metadata)
  | create (dir : Nat) (name : String) (fileType : FileType) (mode : Nat)
  | mknod (dir : Nat) (name : String) (fileType : FileType) (mode rdev : Nat)
  | symlink (dir : Nat) (name target : String)
  | mkdir (dir : Nat) (name : String) (mode : Nat)
  | link (dir : Nat) (name : String) (target : Nat)
  | unlink (dir : Nat) (name : String)
  | rmdir (dir : Nat) (name : String)
  | rename (dir : Nat) (oldName : String) (newDir : Nat) (newName : String)
  | setxattr (ino : Nat) (name : String) (value : List Byte)
  | removexattr (ino : Nat) (name : String)
  | sync (m : MountState)
  | onMount (m : MountState)
  | onUnmount (m : MountState)

namespace Call

def exec : Call → FsM Unit
  | .open n => getInode n
  | .forget n => cacheInode n none
  | .query q => do let _ ← ask q
  | .lookup dir name => do getInode (← dirLookup dir name)
  | .writeAt ino offset buf len => do let _ ← writeAtLocked ino offset buf len
  | .truncate ino size => Ext2.truncate ino size
  | .setattr ino m => Ext2.setattr ino m
  | .create dir name fileType mode => do let _ ← Ext2.create dir name fileType mode
  | .mknod dir name fileType mode rdev => do let _ ← Ext2.mknod dir name fileType mode rdev
  | .symlink dir name target => do let _ ← Ext2.symlink dir name target
  | .mkdir dir name mode => do let _ ← Ext2.mkdir dir name mode
  | .link dir name target => Ext2.link dir name target
  | .unlink dir name => unlinkLocked dir name
  | .rmdir dir name => rmdirLocked dir name
  | .rename dir oldName newDir newName => Ext2.rename dir oldName newDir newName
  | .setxattr ino name value => Ext2.setxattr ino name value
  | .removexattr ino name => Ext2.removexattr ino name
  | .sync m => Ext2.sync m
  | .onMount m => do let _ ← Ext2.onMount m
  | .onUnmount m => do let _ ← Ext2.onUnmount m

/-- The handles that a call is made with. -/
def handles : Call → List Nat
  | .open _ | .forget _ | .sync _ | .onMount _ | .onUnmount _ => []
  | .query q => q.handles
  | .writeAt ino .. | .truncate ino _ | .setattr ino _ | .setxattr ino .. | .removexattr ino _ => [ino]
  | .lookup dir _ | .create dir .. | .mknod dir .. | .symlink dir .. | .mkdir dir .. | .unlink dir _ | .rmdir dir _ => [dir]
  | .link dir _ target => [dir, target]
  | .rename dir _ newDir _ => [dir, newDir]

/-- A call on handles that neither stores into an inode before it fails nor scans a directory that is not sound. -/
def Careful (fs : Ext2Fs) (c : Call) : Prop :=
  (∀ n ∈ c.handles, ∃ r, fs.inodeCache n = some r) ∧
  match c with
  | .setattr .. => False
  | .truncate ino size => ∀ r, fs.inodeCache ino = some r → r.fmt = EXT2_S_IFREG → Releases fs ino size r
  | .link dir .. | .unlink dir _ | .rmdir dir _ => SoundDir fs dir
  | .rename _ _ newDir _ => SoundDir fs newDir
  | _ => True

/-- A call that is there to change the filesystem. An empty write is not, and neither is a `rename` between two names of
one inode. -/
def Modifies (fs : Ext2Fs) : Call → Prop
  | .open _ | .forget _ | .query _ | .lookup .. | .sync _ | .onMount _ | .onUnmount _ => False
  | .writeAt _ _ _ len => len ≠ 0
  | .rename dir oldName newDir newName =>
    ∀ child, outcome (dirLookup dir oldName fs) = .ok child → outcome (dirLookup newDir newName fs) ≠ .ok child
  | _ => True

def step (fs : Ext2Fs) (c : Call) : Ext2Fs := finalState (c.exec fs)

def run (fs : Ext2Fs) (calls : List Call) : Ext2Fs := calls.foldl step fs

/-- A run of careful calls. -/
def CarefulRun : Ext2Fs → List Call → Prop
  | _, [] => True
  | fs, c :: calls => c.Careful fs ∧ CarefulRun (c.step fs) calls

end Call

section Run

variable {fs₀ fs fs' : Ext2Fs} {S S' : List Nat}

/-- Two mounts of one image with the inodes of `l` in memory. -/
def Peers (l : List Nat) (fs fs' : Ext2Fs) : Prop := Alike fs fs' ∧ ∀ n ∈ l, Peer n fs fs'

theorem Unchanged.peers (h : Unchanged fs₀ S fs) (h' : Unchanged fs₀ S' fs') {l : List Nat} (hl : ∀ n ∈ l, n ∈ S)
    (hl' : ∀ n ∈ l, n ∈ S') : Peers l fs fs' := ⟨h.alike h', fun n hn => h.peer h' (hl n hn) (hl' n hn)⟩

/-- Every query returns the same in all these states. -/
theorem ask_reads (q : Query) : Reads Reported (Peers q.handles) (ask q) := by
  have hpeer : ∀ {α : Type} {ino : Nat} {x : FsM α}, Reads Reported (Peer ino) x → Reads Reported (Peers [ino]) x :=
    fun h => h.mono fun _ _ hp => hp.2 _ (List.mem_singleton_self _)
  cases q with
  | getattr ino => exact (hpeer getattr_reads).bind fun _ => Reads.pure _
  | readAt ino off len => exact (hpeer (readAt_reads off len)).bind fun _ => Reads.pure _
  | list ino => exact (hpeer dirList_reads).bind fun _ => Reads.pure _
  | readlink ino => exact (hpeer readlink_reads).bind fun _ => Reads.pure _
  | getxattr ino name => exact (hpeer (getxattr_reads name)).bind fun _ => Reads.pure _
  | listxattr ino => exact (hpeer listxattr_reads).bind fun _ => Reads.pure _
  | info => exact (info_reads.mono fun _ _ hp => hp.1).bind fun _ => Reads.pure _

variable (hro : fs₀.readOnly = true)

include hro

/-! ### The superblock -/

theorem writeSuperBlock_keeps (m : MountState) : Keeps Reported (Unchanged fs₀ S) (writeSuperBlock m) := by
  apply Keeps.get_bind
  intro fs h
  rw [if_pos (h.readOnly hro)]
  exact Keeps.pure _

theorem sync_keeps (m : MountState) : Keeps Reported (Unchanged fs₀ S) (sync m) := by
  apply Keeps.bind (writeSuperBlock_keeps hro m)
  intro _
  apply Keeps.get_bind
  intro fs h
  rw [if_pos (h.readOnly hro)]
  exact Keeps.pure _

theorem onMount_keeps (m : MountState) : Keeps Reported (Unchanged fs₀ S) (onMount m) := by
  apply Keeps.get_bind
  intro fs h
  rw [if_pos (h.readOnly hro)]
  exact Keeps.pure _

theorem onUnmount_keeps (m : MountState) : Keeps Reported (Unchanged fs₀ S) (onUnmount m) := by
  apply Keeps.bind (sync_keeps hro m)
  intro _
  apply Keeps.get_bind
  intro fs h
  rw [if_pos (h.readOnly hro)]
  exact Keeps.pure _

/-! ### One call -/

omit hro in
/-- A call that keeps the mount as it is. -/
theorem kept {c : Call} (hc : Keeps Reported (Unchanged fs₀ S) c.exec) (h : Unchanged fs₀ S fs)
    (hm : ¬ c.Modifies fs) :
    Unchanged fs₀ [] (c.step fs) ∧ (c.Modifies fs → ∃ e, outcome (c.exec fs) = .error (.err e)) :=
  ⟨(hc fs h).2.mono fun _ hn => absurd hn List.not_mem_nil, fun hmod => absurd hmod hm⟩

omit hro in
/-- A call that the mount refuses. -/
theorem refused {c : Call} (hc : ∃ e fs', c.exec fs = .error e fs' ∧ Reported e ∧ Unchanged fs₀ S fs') :
    Unchanged fs₀ [] (c.step fs) ∧ (c.Modifies fs → ∃ e, outcome (c.exec fs) = .error (.err e)) := by
  obtain ⟨e, fs', hrun, he, h⟩ := hc
  unfold Call.step
  rw [hrun]
  refine ⟨h.mono fun _ hn => absurd hn List.not_mem_nil, fun _ => ?_⟩
  cases e with
  | err e => exact ⟨e, rfl⟩
  | panic => exact absurd rfl he

/-- **A careful call** leaves the mount as it is, and returns an error if it is there to change it. -/
theorem exec_unchanged (h : Unchanged fs₀ [] fs) {c : Call} (hc : c.Careful fs) :
    Unchanged fs₀ [] (c.step fs) ∧ (c.Modifies fs → ∃ e, outcome (c.exec fs) = .error (.err e)) := by
  obtain ⟨hheld, hc⟩ := hc
  have hh : Unchanged fs₀ c.handles fs := ⟨h.accepted, h.bare, h.cache, hheld⟩
  -- a directory that is sound now is sound in every state that the call goes through
  have hsound : ∀ {d : Nat}, d ∈ c.handles → SoundDir fs d →
      ∀ fs', Unchanged fs₀ c.handles fs' → SoundDir fs' d :=
    fun hd hs fs' h' => hs.peer (hh.peer h' hd hd)
  have hfirst : ∀ {a : Nat} {l : List Nat}, a ∈ a :: l := fun {a l} => List.mem_cons_self ..
  cases c with
  | «open» n => exact kept (getInode_keeps n) hh not_false
  | forget n =>
    refine ⟨⟨h.accepted, h.bare, fun k r hr => ?_, fun k hk => absurd hk List.not_mem_nil⟩, False.elim⟩
    by_cases hk : k = n
    · subst hk
      change Function.update fs.inodeCache k none k = some r at hr
      rw [Function.update_self] at hr
      cases hr
    · change Function.update fs.inodeCache n none k = some r at hr
      rw [Function.update_of_ne hk] at hr
      exact h.cache k r hr
  | query q =>
    have hask : Keeps Reported (Unchanged fs₀ q.handles) (ask q) :=
      (ask_reads q).keeps fun _ hs => hs.peers hs (fun _ hn => hn) fun _ hn => hn
    exact kept (hask.bind fun _ => Keeps.pure _) hh not_false
  | lookup dir name =>
    refine kept (Keeps.bind (reads_unchanged hfirst (dirLookup_reads name)) fun child => ?_) hh not_false
    exact getInode_keeps child
  | writeAt ino off buf len =>
    by_cases hlen : len = 0
    · subst hlen
      exact kept (Keeps.bind (Keeps.pure _) fun _ => Keeps.pure _) hh (not_not_intro rfl)
    · exact refused ((writeAtLocked_fails hro hfirst off buf hlen).bind_left fs hh)
  | truncate ino size => exact refused (truncate_fails hro hh hfirst hc)
  | setattr ino m => exact hc.elim
  | create dir name ft mode => exact refused ((create_fails hro hfirst name ft mode).bind_left fs hh)
  | mknod dir name ft mode rdev => exact refused ((mknod_fails hro hfirst name ft mode rdev).bind_left fs hh)
  | symlink dir name target => exact refused ((symlink_fails hro hfirst name target).bind_left fs hh)
  | mkdir dir name mode => exact refused ((mkdir_fails hro hfirst name mode).bind_left fs hh)
  | link dir name target =>
    exact refused (link_fails hro (hsound hfirst hc) hfirst (List.mem_cons_of_mem _ hfirst) name fs hh)
  | unlink dir name => exact refused (unlinkLocked_fails hro (hsound hfirst hc) hfirst name fs hh)
  | rmdir dir name => exact refused (rmdirLocked_fails hro (hsound hfirst hc) hfirst name fs hh)
  | rename dir oldName newDir newName =>
    have hnew : newDir ∈ [dir, newDir] := List.mem_cons_of_mem _ hfirst
    by_cases hm : Call.Modifies fs (.rename dir oldName newDir newName)
    · refine refused (rename_fails hro (hsound hnew hc) hnew hfirst oldName newName ?_ fs hh)
      intro fs' h' child hchild
      have hdir := hh.peer h' hfirst hfirst
      have hdir' := hh.peer h' hnew hnew
      rw [← (dirLookup_reads newName).outcome_eq hdir']
      exact hm child ((dirLookup_reads oldName).outcome_eq hdir ▸ hchild)
    · exact kept (rename_keeps hro (hsound hnew hc) hnew hfirst oldName newName) hh hm
  | setxattr ino name value => exact refused (setxattr_fails hro hfirst name value fs hh)
  | removexattr ino name => exact refused (removexattr_fails hro hfirst name fs hh)
  | sync m => exact kept (sync_keeps hro m) hh not_false
  | onMount m => exact kept (Keeps.bind (onMount_keeps hro m) fun _ => Keeps.pure _) hh not_false
  | onUnmount m => exact kept (Keeps.bind (onUnmount_keeps hro m) fun _ => Keeps.pure _) hh not_false

/-! ### Whole runs -/

theorem run_unchanged {calls : List Call} : ∀ {fs}, Unchanged fs₀ [] fs → Call.CarefulRun fs calls →
    Unchanged fs₀ [] (Call.run fs calls) := by
  induction calls with
  | nil => exact fun h _ => h
  | cons c calls ih => exact fun h hc => ih (exec_unchanged hro h hc.1).1 hc.2

end Run

theorem Call.carefulRun_append {fs : Ext2Fs} {pre post : List Call} :
    CarefulRun fs (pre ++ post) ↔ CarefulRun fs pre ∧ CarefulRun (run fs pre) post := by
  induction pre generalizing fs with
  | nil => exact ⟨fun h => ⟨trivial, h⟩, fun h => h.2⟩
  | cons c pre ih =>
    show (c.Careful fs ∧ CarefulRun (c.step fs) (pre ++ post)) ↔ (c.Careful fs ∧ _) ∧ _
    rw [ih, and_assoc]
    rfl

/-- **A read-only mount is immutable** over every run of careful calls: at every point of the run the disk and the
counters are those of the opened image, the next call returns an error if it is there to change the filesystem, and a
query returns there what it returns at the end. -/
theorem read_only_immutable {dev : BlockDevice} {fs₀ : Ext2Fs} {m : MountState} (hopen : openImage dev = .ok (fs₀, m))
    (hro : fs₀.superBlock.unsupportedRoCompat ≠ 0) {pre post : List Call} (hcareful : Call.CarefulRun fs₀ (pre ++ post)) :
    (Call.run fs₀ pre).bare = fs₀.bare ∧
    (∀ c rest, post = c :: rest → c.Modifies (Call.run fs₀ pre) →
      ∃ e, outcome (c.exec (Call.run fs₀ pre)) = .error (.err e)) ∧
    ∀ q : Query, (∀ n ∈ q.handles, (∃ r, (Call.run fs₀ pre).inodeCache n = some r) ∧
        ∃ r, (Call.run fs₀ (pre ++ post)).inodeCache n = some r) →
      outcome (ask q (Call.run fs₀ (pre ++ post))) = outcome (ask q (Call.run fs₀ pre)) := by
  obtain ⟨haccepted, hempty, hflag⟩ := openImage_accepted hopen
  have hro : fs₀.readOnly = true := by rw [hflag, decide_eq_true hro]
  have hstart : Unchanged fs₀ [] fs₀ := by
    refine ⟨haccepted, rfl, fun n r hr => ?_, fun n hn => absurd hn List.not_mem_nil⟩
    rw [hempty n] at hr
    cases hr
  have hpre := run_unchanged hro hstart (Call.carefulRun_append.1 hcareful).1
  have hall := run_unchanged hro hstart hcareful
  refine ⟨hpre.bare, ?_, ?_⟩
  · rintro c rest rfl
    exact (exec_unchanged hro hpre (Call.carefulRun_append.1 hcareful).2.1).2
  · intro q hq
    have hpre' : Unchanged fs₀ q.handles (Call.run fs₀ pre) :=
      ⟨hpre.accepted, hpre.bare, hpre.cache, fun n hn => (hq n hn).1⟩
    have hall' : Unchanged fs₀ q.handles (Call.run fs₀ (pre ++ post)) :=
      ⟨hall.accepted, hall.bare, hall.cache, fun n hn => (hq n hn).2⟩
    exact (ask_reads q).outcome_eq (hall'.peers hpre' (fun _ hn => hn) fun _ hn => hn)

/-- A device of 32 blocks with a feature that is not supported; inode 2 is the root, inode 3 a file of two blocks. -/
def readOnlyImage : BlockDevice where
  blockSize := 512
  blockCount := 64
  bytes := [(1024, 4, 8), (1028, 4, 32), (1044, 4, 1), (1056, 4, 32), (1064, 4, 8), (1080, 2, 0xEF53), (1100, 4, 1),
    (1112, 2, 128), (1124, 4, 4), (2048, 4, 3), (2052, 4, 4), (2056, 4, 5), (5248, 2, 0x41ED), (5376, 2, 0x81A4),
    (5380, 4, 1500), (5416, 4, 10), (5420, 4, 11)].foldl (fun b f => putLe b f.1 f.2.1 f.2.2) fun _ => 0

/-- The filesystem on it. -/
def readOnlyFs : Ext2Fs where
  deviceBlocks := 32
  superBlock := ⟨8, 32, 0, 0, 1, 0, 32, 8, 128, 0, 4⟩
  blockGroups := [⟨3, 4, 5, 0, 0, 0⟩]
  readOnly := true
  disk := fun b => dropBytes readOnlyImage.bytes (b * 1024)
  inodeCache := fun _ => none

theorem read_only_immutable_run :
    (Call.run readOnlyFs [.open 2, .open 3]).bare = readOnlyFs.bare ∧
      outcome (ask (.getattr 3) (Call.run readOnlyFs [.open 2, .open 3, .mkdir 2 "a" 0, .truncate 3 0])) =
        outcome (ask (.getattr 3) (Call.run readOnlyFs [.open 2, .open 3])) := by
  have hheld : ∀ {fs : Ext2Fs} {n : Nat}, (fs.inodeCache n).isSome = true → ∃ r, fs.inodeCache n = some r :=
    fun h => Option.isSome_iff_exists.1 h
  have hcareful : Call.CarefulRun readOnlyFs ([.open 2, .open 3] ++ [.mkdir 2 "a" 0, .truncate 3 0]) := by
    refine ⟨⟨fun _ h => absurd h List.not_mem_nil, trivial⟩, ⟨fun _ h => absurd h List.not_mem_nil, trivial⟩,
      ⟨fun n hn => ?_, trivial⟩, ⟨fun n hn => ?_, fun r hr _ => .inl ⟨rfl, 0, by decide, ?_⟩⟩, trivial⟩
    · obtain rfl := List.mem_singleton.1 hn
      exact hheld (by decide +kernel)
    · obtain rfl := List.mem_singleton.1 hn
      exact hheld (by decide +kernel)
    · have hblock : ((Call.run readOnlyFs [.open 2, .open 3, .mkdir 2 "a" 0]).inodeCache 3).map
        (fun r => r.block 0) = some 10 := by decide +kernel
      have hr' : (Call.run readOnlyFs [.open 2, .open 3, .mkdir 2 "a" 0]).inodeCache 3 = some r := hr
      rw [hr'] at hblock
      injection hblock with hblock
      change r.block 0 = 10 at hblock
      rw [hblock]
      decide
  have himm := read_only_immutable (show openImage readOnlyImage = .ok (readOnlyFs, _) from rfl) (by decide) hcareful
  refine ⟨himm.1, himm.2.2 (.getattr 3) fun n hn => ?_⟩
  obtain rfl := List.mem_singleton.1 hn
  exact ⟨hheld (by decide +kernel), hheld (by decide +kernel)⟩

/-- `setattr` returns an error, and the mode is another one. -/
theorem setattr_changes_read_only_mount :
    openImage readOnlyImage = .ok (readOnlyFs, ⟨1, 0, 0, readOnlyImage.descriptor 1024⟩) ∧
    readOnlyFs.superBlock.unsupportedRoCompat ≠ 0 ∧
    ∃ fs m, fs = Call.run readOnlyFs [.open 2] ∧
      outcome ((Call.setattr 2 m).exec fs) = .error (.err .readOnly) ∧
      outcome (getattr 2 (Call.step fs (.setattr 2 m))) = .ok ⟨0, 0x41C0, 0, 0, 0, 0, 0, .directory⟩ ∧
      outcome (getattr 2 fs) = .ok ⟨0, 0x41ED, 0, 0, 0, 0, 0, .directory⟩ := by
  refine ⟨rfl, by decide, _, ⟨0, 0x41C0, 0, 0, 0, 0, 0, .directory⟩, rfl, ?_, ?_, ?_⟩
  · rfl
  · rfl
  · rfl

end Koros.Ext2
