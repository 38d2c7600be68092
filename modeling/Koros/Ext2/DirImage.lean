import Koros.Lib.Tiles
import Koros.Ext2.Dir

/-!
# Directory images

The bytes of a directory: every block is covered by records, and the records with an inode are its entries. The two scans
of `kor-ext2/src/dir.rs` go from record to record; an edit replaces a few records that follow one another.

- `rebuild`: other records are put in the place of some;
- `removeScan_eq`, `addScan_eq`: what the scans find;
- `remove_wellFormed`: a record is removed, with or without its free successor;
- `reuse_wellFormed`, `share_wellFormed`, `append_wellFormed`: the three ways of adding one.
-/
set_option autoImplicit false

namespace Koros.Ext2

open Koros.Lib

/-! ## Records -/

def inodeAt (data : Bytes) (o : Nat) : Nat := leNat data o 4

def recLenAt (data : Bytes) (o : Nat) : Nat := leNat data (o + 4) 2

def nameLenAt (data : Bytes) (o : Nat) : Nat := (data (o + 6)).toNat

def nameAt (data : Bytes) (o : Nat) : List Byte := slice data (o + DIR_ENTRY_HEADER_SIZE) (nameLenAt data o)

/-- A record with an inode. -/
structure LiveEntry where
  inode : Nat
  fileType : Byte
  name : List Byte
deriving DecidableEq, Repr

def entryAt (data : Bytes) (o : Nat) : LiveEntry := ⟨inodeAt data o, data (o + 7), nameAt data o⟩

/-- The entries of some records, in order. -/
def entries (data : Bytes) (l : List Nat) : List LiveEntry := (l.filter fun o => inodeAt data o ≠ 0).map (entryAt data)

/-- A record lies in one block, and its name lies in it if it has an inode. `Q` is what else the three numbers of its
header have to meet. -/
structure GoodRecord (Q : Nat → Nat → Nat → Prop) (blockSize : Nat) (data : Bytes) (o : Nat) : Prop where
  header : DIR_ENTRY_HEADER_SIZE ≤ recLenAt data o
  inBlock : (o + recLenAt data o - 1) / blockSize = o / blockSize
  fits : inodeAt data o ≠ 0 → DIR_ENTRY_HEADER_SIZE + nameLenAt data o ≤ recLenAt data o
  shape : Q (recLenAt data o) (inodeAt data o) (nameLenAt data o)

/-- Records at `l` cover the blocks of a directory of `len` bytes. -/
structure WellFormed (Q : Nat → Nat → Nat → Prop) (blockSize len : Nat) (data : Bytes) (l : List Nat) : Prop where
  whole : blockSize ∣ len
  tiles : Tiles (recLenAt data) len 0 l
  good : ∀ o ∈ l, GoodRecord Q blockSize data o

section Records

variable {Q : Nat → Nat → Nat → Prop} {blockSize len len' : Nat} {data data' : Bytes} {o a s e : Nat}
  {l pre post : List Nat}

@[simp] theorem entries_append (data : Bytes) (l m : List Nat) : entries data (l ++ m) = entries data l ++ entries data m := by
  simp [entries]

theorem entries_cons (data : Bytes) (o : Nat) (l : List Nat) :
    entries data (o :: l) = (if inodeAt data o = 0 then [] else [entryAt data o]) ++ entries data l := by
  unfold entries
  rw [List.filter_cons]
  by_cases h : inodeAt data o = 0 <;> simp [h]

@[simp] theorem entries_nil (data : Bytes) : entries data [] = [] := rfl

/-- A record that lies in one block is no longer than the block. -/
theorem GoodRecord.le_blockSize (h : GoodRecord Q blockSize data o) (hpos : 0 < blockSize) :
    recLenAt data o ≤ blockSize := by
  have hend := Nat.div_add_mod (o + recLenAt data o - 1) blockSize
  have hstart := Nat.div_add_mod o blockSize
  have hlt := Nat.mod_lt (o + recLenAt data o - 1) hpos
  rw [h.inBlock] at hend
  omega

theorem GoodRecord.block (h : GoodRecord Q blockSize data o) {x : Nat} (h₁ : o ≤ x) (h₂ : x < o + recLenAt data o) :
    x / blockSize = o / blockSize := by
  have hlo := Nat.div_le_div_right (c := blockSize) h₁
  have hhi := Nat.div_le_div_right (c := blockSize) (show x ≤ o + recLenAt data o - 1 by omega)
  rw [h.inBlock] at hhi
  omega

/-- The bytes of a record are the same. -/
theorem GoodRecord.congr (h : GoodRecord Q blockSize data o)
    (hsame : ∀ j, o ≤ j → j < o + recLenAt data o → data' j = data j) :
    GoodRecord Q blockSize data' o ∧ recLenAt data' o = recLenAt data o ∧ inodeAt data' o = inodeAt data o ∧
      (inodeAt data o ≠ 0 → entryAt data' o = entryAt data o) := by
  have hlen : 8 ≤ recLenAt data o := h.header
  have hrec : recLenAt data' o = recLenAt data o := leNat_congr fun j h₁ h₂ => hsame j (by omega) (by omega)
  have hino : inodeAt data' o = inodeAt data o := leNat_congr fun j h₁ h₂ => hsame j h₁ (by omega)
  have hname : nameLenAt data' o = nameLenAt data o := congrArg BitVec.toNat (hsame _ (by omega) (by omega))
  refine ⟨⟨?_, ?_, ?_, ?_⟩, hrec, hino, fun hlive => ?_⟩
  · rw [hrec]
    exact h.header
  · rw [hrec]
    exact h.inBlock
  · rw [hino, hname, hrec]
    exact h.fits
  · rw [hrec, hino, hname]
    exact h.shape
  · have hfits : 8 + nameLenAt data o ≤ recLenAt data o := h.fits hlive
    have hbytes : nameAt data' o = nameAt data o := by
      unfold nameAt
      rw [hname]
      exact slice_congr fun j h₁ h₂ => hsame j (by omega) (by
        have h₂ : j < o + 8 + nameLenAt data o := h₂
        omega)
    rw [entryAt, entryAt, hino, hbytes, hsame _ (by omega) (by omega)]

theorem entries_congr (hgood : ∀ o ∈ l, GoodRecord Q blockSize data o)
    (hsame : ∀ o ∈ l, ∀ j, o ≤ j → j < o + recLenAt data o → data' j = data j) : entries data' l = entries data l := by
  induction l with
  | nil => rfl
  | cons o l ih =>
    obtain ⟨-, -, hino, hentry⟩ := (hgood o (List.mem_cons_self ..)).congr (hsame o (List.mem_cons_self ..))
    rw [entries_cons, entries_cons, hino, ih (fun x hx => hgood x (List.mem_cons_of_mem _ hx))
      fun x hx => hsame x (List.mem_cons_of_mem _ hx)]
    by_cases h0 : inodeAt data o = 0
    · rw [if_pos h0, if_pos h0]
    · rw [if_neg h0, if_neg h0, hentry h0]

/-- **Replacing records**: those before and behind a stretch stay, and others cover it now. -/
theorem rebuild (mid : List Nat) (hwhole : blockSize ∣ len') (hpre : Tiles (recLenAt data) s 0 pre) (hpost : Tiles (recLenAt data) len' e post)
    (hgood : ∀ o ∈ pre ++ post, GoodRecord Q blockSize data o) (hsame : ∀ j, j < s ∨ e ≤ j → j < len' → data' j = data j)
    (hse : s ≤ e) (hmid : Tiles (recLenAt data') e s mid) (hgood' : ∀ o ∈ mid, GoodRecord Q blockSize data' o) :
    WellFormed Q blockSize len' data' (pre ++ (mid ++ post)) ∧
      entries data' (pre ++ (mid ++ post)) = entries data pre ++ (entries data' mid ++ entries data post) := by
  have hle := hpost.le
  have hbefore : ∀ o ∈ pre, ∀ j, o ≤ j → j < o + recLenAt data o → data' j = data j := fun o ho j h₁ h₂ => by
    have := hpre.mem ho
    exact hsame j (by omega) (by omega)
  have hbehind : ∀ o ∈ post, ∀ j, o ≤ j → j < o + recLenAt data o → data' j = data j := fun o ho j h₁ h₂ => by
    have := hpost.mem ho
    exact hsame j (by omega) (by omega)
  have hgpre : ∀ o ∈ pre, GoodRecord Q blockSize data o := fun o ho => hgood o (List.mem_append_left _ ho)
  have hgpost : ∀ o ∈ post, GoodRecord Q blockSize data o := fun o ho => hgood o (List.mem_append_right _ ho)
  refine ⟨⟨hwhole, ?_, fun o ho => ?_⟩, ?_⟩
  · rw [tiles_append]
    refine ⟨s, hpre.congr fun o ho => ((hgpre o ho).congr (hbefore o ho)).2.1, ?_⟩
    rw [tiles_append]
    exact ⟨e, hmid, hpost.congr fun o ho => ((hgpost o ho).congr (hbehind o ho)).2.1⟩
  · rcases List.mem_append.1 ho with ho | ho
    · exact ((hgpre o ho).congr (hbefore o ho)).1
    · rcases List.mem_append.1 ho with ho | ho
      · exact hgood' o ho
      · exact ((hgpost o ho).congr (hbehind o ho)).1
  · rw [entries_append, entries_append, entries_congr hgpre hbefore, entries_congr hgpost hbehind]

/-- The image is the same as long as its bytes are. -/
theorem WellFormed.congr (h : WellFormed Q blockSize len data l) (hsame : ∀ j < len, data' j = data j) :
    WellFormed Q blockSize len data' l ∧ entries data' l = entries data l := by
  have hbuild := rebuild [] h.whole h.tiles (show Tiles (recLenAt data) len len [] from rfl) (by simpa using h.good)
    (fun j _ hj => hsame j hj) (Nat.le_refl len) rfl (fun _ h => by cases h)
  simpa using hbuild

/-- Less may be asked of the records. -/
theorem WellFormed.imp {Q' : Nat → Nat → Nat → Prop} (h : WellFormed Q blockSize len data l)
    (hQ : ∀ m i n, Q m i n → Q' m i n) : WellFormed Q' blockSize len data l :=
  ⟨h.whole, h.tiles, fun o ho => ⟨(h.good o ho).header, (h.good o ho).inBlock, (h.good o ho).fits, hQ _ _ _ (h.good o ho).shape⟩⟩

/-- The record around an offset, which lies in the same block. -/
theorem WellFormed.exists_mem (h : WellFormed Q blockSize len data l) {j : Nat} (hj : j < len) :
    ∃ o ∈ l, GoodRecord Q blockSize data o ∧ ∀ x, o ≤ x → x < o + recLenAt data o → x / blockSize = j / blockSize := by
  obtain ⟨o, ho, hle, hlt⟩ := h.tiles.exists_mem (Nat.zero_le j) hj
  have hgood := h.good o ho
  exact ⟨o, ho, hgood, fun x h₁ h₂ => (hgood.block h₁ h₂).trans (hgood.block hle hlt).symm⟩

/-! ## Removing -/

/-- The record that a removal looks for. -/
def isNamed (data : Bytes) (name : List Byte) (o : Nat) : Bool := decide (inodeAt data o ≠ 0 ∧ nameAt data o = name)

theorem removeScan_succ (data : Bytes) (len : Nat) (name : List Byte) (fuel o : Nat) :
    removeScan data len name (fuel + 1) o =
      if o + 8 > len then .error (.err .notFound)
      else if recLenAt data o < 8 ∨ o + recLenAt data o > len then .error (.err .notFound)
      else if inodeAt data o ≠ 0 ∧ nameLenAt data o = name.length then
        if o + 8 + nameLenAt data o > len then .error .panic
        else if nameAt data o = name then .ok (o, recLenAt data o)
        else removeScan data len name fuel (o + recLenAt data o)
      else removeScan data len name fuel (o + recLenAt data o) := rfl

/-- **The scan of `remove_dir_entry`** finds the first record with that name. -/
theorem removeScan_eq (name : List Byte) (h : Tiles (recLenAt data) len a l)
    (hgood : ∀ o ∈ l, GoodRecord Q blockSize data o) {fuel : Nat} (hfuel : len - a ≤ fuel) :
    removeScan data len name fuel a = match l.find? (isNamed data name) with
      | some o => .ok (o, recLenAt data o)
      | none => .error (.err .notFound) := by
  induction l generalizing a fuel with
  | nil =>
    obtain rfl : a = len := h
    cases fuel with
    | zero => rfl
    | succ fuel =>
      rw [removeScan_succ, if_pos (by omega)]
      rfl
  | cons o l ih =>
    obtain ⟨rfl, hpos, hrest⟩ := h
    have hrec := hgood o (List.mem_cons_self ..)
    have hle := hrest.le
    have hheader : 8 ≤ recLenAt data o := hrec.header
    have hrest' : ∀ x ∈ l, GoodRecord Q blockSize data x := fun x hx => hgood x (List.mem_cons_of_mem _ hx)
    obtain ⟨fuel, rfl⟩ := Nat.exists_eq_succ_of_ne_zero (show fuel ≠ 0 by omega)
    rw [removeScan_succ, if_neg (by omega), if_neg (by omega), List.find?_cons]
    by_cases hlive : inodeAt data o ≠ 0 ∧ nameLenAt data o = name.length
    · have hfits : 8 + nameLenAt data o ≤ recLenAt data o := hrec.fits hlive.1
      rw [if_pos hlive, if_neg (by omega)]
      by_cases hname : nameAt data o = name
      · rw [if_pos hname, show isNamed data name o = true from decide_eq_true ⟨hlive.1, hname⟩]
      · rw [if_neg hname, show isNamed data name o = false from decide_eq_false fun hn => hname hn.2]
        exact ih hrest hrest' (by omega)
    · have hno : isNamed data name o = false := decide_eq_false fun hn => hlive ⟨hn.1, by
        rw [← hn.2]
        exact length_slice.symm⟩
      rw [if_neg hlive, hno]
      exact ih hrest hrest' (by omega)

/-- What a removal takes together: the record, and its free successor in the same block. -/
def joins (data : Bytes) (blockSize o : Nat) : List Nat → List Nat
  | [] => []
  | p :: post => if o / blockSize = p / blockSize ∧ inodeAt data p = 0 then post else p :: post

theorem coalesced_eq (h : WellFormed Q blockSize len data (pre ++ o :: post)) :
    coalesced (putLe data o 4 0) len blockSize o (recLenAt data o) = match post with
      | [] => recLenAt data o
      | p :: _ =>
        if o / blockSize = p / blockSize ∧ inodeAt data p = 0 then recLenAt data o + recLenAt data p else recLenAt data o := by
  obtain ⟨-, -, hpost⟩ := tiles_at.1 h.tiles
  have hheader : 8 ≤ recLenAt data o := (h.good o (by simp)).header
  unfold coalesced
  cases post with
  | nil =>
    have hend : o + recLenAt data o = len := hpost
    exact if_neg fun hc => by
      have : o + recLenAt data o + 8 ≤ len := hc.2.1
      omega
  | cons p post =>
    obtain ⟨hp, -, hrest⟩ := hpost
    have hgood := h.good p (by simp)
    have hheader' : 8 ≤ recLenAt data p := hgood.header
    have hle := hrest.le
    have hrec : leNat (putLe data o 4 0) (p + 4) 2 = recLenAt data p := leNat_putLe_of_disjoint 0 (by omega)
    have hino : leNat (putLe data o 4 0) p 4 = inodeAt data p := leNat_putLe_of_disjoint 0 (by omega)
    have hblock := hgood.inBlock
    dsimp only
    rw [← hp] at hle ⊢
    rw [hrec, hino, hblock]
    refine if_congr ⟨fun hc => ⟨hc.1, hc.2.2.1⟩, fun hc => ⟨hc.1, ?_, hc.2, hheader', hle, hc.1⟩⟩ rfl rfl
    show p + 8 ≤ len
    omega

/-- The bytes after a removal. -/
def removedData (data : Bytes) (len blockSize o : Nat) : Bytes :=
  putLe (putLe data o 4 0) (o + 4) 2 (coalesced (putLe data o 4 0) len blockSize o (recLenAt data o))

theorem removedData_same (data : Bytes) (len blockSize o : Nat) {j : Nat} (hj : j < o ∨ o + 6 ≤ j) : removedData data len blockSize o j = data j := by
  unfold removedData putLe
  rw [blit_of_outside (by omega), blit_of_outside (by omega)]

/-- **A removal** takes one entry away, and leaves records that cover the blocks. -/
theorem remove_wellFormed (h : WellFormed Q blockSize len data (pre ++ o :: post)) (hbs : blockSize < 2 ^ 16)
    (hpos : 0 < blockSize) (hQ : ∀ m k i i' n n', Q m i n → Q m 0 n ∧ (Q k i' n' → Q (m + k) 0 n)) :
    WellFormed Q blockSize len (removedData data len blockSize o) (pre ++ o :: joins data blockSize o post) ∧
      entries (removedData data len blockSize o) (pre ++ o :: joins data blockSize o post) =
        entries data pre ++ entries data post := by
  obtain ⟨hpre, -, hpost⟩ := tiles_at.1 h.tiles
  have hgood := h.good o (by simp)
  have hheader : 8 ≤ recLenAt data o := hgood.header
  have hcoal := coalesced_eq h
  have hino : inodeAt (removedData data len blockSize o) o = 0 :=
    (leNat_putLe_of_disjoint _ (by omega)).trans (leNat_putLe_of_lt (by decide))
  have hname : nameLenAt (removedData data len blockSize o) o = nameLenAt data o :=
    congrArg BitVec.toNat (removedData_same _ _ _ _ (by omega))
  -- the new length: what is known of the record with it, and of the records behind it
  obtain ⟨m, hm, hle, hblock, hshape, htiles, hentries⟩ : ∃ m, coalesced (putLe data o 4 0) len blockSize o (recLenAt data o) = m ∧
      8 ≤ m ∧ (o + m - 1) / blockSize = o / blockSize ∧ Q m 0 (nameLenAt data o) ∧
      Tiles (recLenAt data) len (o + m) (joins data blockSize o post) ∧
      entries data (joins data blockSize o post) = entries data post := by
    have hone := (hQ _ 0 _ 0 _ 0 hgood.shape).1
    refine ⟨_, rfl, ?_⟩
    rw [hcoal]
    cases post with
    | nil => exact ⟨hheader, hgood.inBlock, hone, hpost, rfl⟩
    | cons p post =>
      obtain ⟨hp, -, hrest⟩ := hpost
      have hnext := h.good p (by simp)
      dsimp only [joins]
      by_cases hc : o / blockSize = p / blockSize ∧ inodeAt data p = 0
      · rw [if_pos hc, if_pos hc, ← Nat.add_assoc, ← hp]
        refine ⟨by omega, hnext.inBlock.trans hc.1.symm, (hQ _ _ _ _ _ _ hgood.shape).2 hnext.shape, by rwa [hp], ?_⟩
        rw [entries_cons, if_pos hc.2, List.nil_append]
      · rw [if_neg hc, if_neg hc]
        exact ⟨hheader, hgood.inBlock, hone, ⟨hp, by rw [← hp]; exact Nat.lt_of_lt_of_le (by decide) hnext.header, hrest⟩, rfl⟩
  have hmbs : m ≤ blockSize := by
    have hend := Nat.div_add_mod (o + m - 1) blockSize
    have hstart := Nat.div_add_mod o blockSize
    have hlt := Nat.mod_lt (o + m - 1) hpos
    rw [hblock] at hend
    omega
  have hrec : recLenAt (removedData data len blockSize o) o = m := by
    show leNat (putLe _ _ _ _) _ _ = m
    rw [hm]
    exact leNat_putLe_of_lt (by omega)
  have hrecord : GoodRecord Q blockSize (removedData data len blockSize o) o :=
    ⟨by rw [hrec]; exact hle, by rw [hrec]; exact hblock, fun h0 => absurd hino h0, by rw [hrec, hino, hname]; exact hshape⟩
  have hsub : ∀ x ∈ joins data blockSize o post, x ∈ post := by
    intro x hx
    cases post with
    | nil => exact hx
    | cons p post =>
      dsimp only [joins] at hx
      split at hx
      · exact List.mem_cons_of_mem _ hx
      · exact hx
  have hbuild := rebuild [o] h.whole hpre htiles
    (fun x hx => h.good x (by
      rcases List.mem_append.1 hx with hx | hx
      · simp [hx]
      · simp [hsub x hx]))
    (fun j hj _ => removedData_same data len blockSize o (by omega)) (by omega)
    (by simp only [tiles_cons, tiles_nil, hrec]; exact ⟨trivial, by omega, trivial⟩)
    (fun x hx => by rw [List.mem_singleton.1 hx]; exact hrecord)
  refine ⟨hbuild.1, hbuild.2.trans ?_⟩
  rw [entries_cons, if_pos hino, hentries]
  rfl

/-- The record that the scan finds, and the entries without it. -/
theorem entries_eraseP {name : List Byte} (hpre : ∀ x ∈ pre, isNamed data name x = false) (ho : isNamed data name o = true) :
    (entries data (pre ++ o :: post)).eraseP (fun e => e.name = name) = entries data pre ++ entries data post := by
  obtain ⟨hlive, hname⟩ := of_decide_eq_true ho
  rw [entries_append, entries_cons, if_neg hlive, List.eraseP_append_right]
  · simp [entryAt, hname]
  · intro e he
    obtain ⟨x, hx, rfl⟩ := List.mem_map.1 he
    obtain ⟨hx, hxlive⟩ := List.mem_filter.1 hx
    have hno := of_decide_eq_false (hpre x hx)
    simp only [decide_eq_true_eq] at hxlive ⊢
    exact fun heq => hno ⟨hxlive, heq⟩

/-- An entry with a name is a record that the scan looks for. -/
theorem exists_named_iff {name : List Byte} : (∃ e ∈ entries data l, e.name = name) ↔ ∃ o ∈ l, isNamed data name o = true := by
  unfold entries isNamed
  simp only [List.mem_map, List.mem_filter, decide_eq_true_eq]
  constructor
  · rintro ⟨e, ⟨o, ⟨ho, hlive⟩, rfl⟩, hname⟩
    exact ⟨o, ho, hlive, hname⟩
  · rintro ⟨o, ho, hlive, hname⟩
    exact ⟨_, ⟨o, ⟨ho, hlive⟩, rfl⟩, hname⟩

/-! ## Adding -/

/-- What the records of a directory meet that only `add_dir_entry` and `remove_dir_entry` have changed. -/
def Aligned (recLen inode nameLen : Nat) : Prop := 4 ∣ recLen ∧ (inode ≠ 0 → entrySize nameLen ≤ recLen)

theorem aligned_free {m k i i' n n' : Nat} (h : Aligned m i n) :
    Aligned m 0 n ∧ (Aligned k i' n' → Aligned (m + k) 0 n) :=
  ⟨⟨h.1, nofun⟩, fun h' => ⟨Nat.dvd_add h.1 h'.1, nofun⟩⟩

theorem entrySize_spec (n : Nat) : 4 ∣ entrySize n ∧ 8 + n ≤ entrySize n ∧ 12 ≤ entrySize n ∧ entrySize n ≤ n + 12 := by
  unfold entrySize DIR_ENTRY_HEADER_SIZE
  omega

/-- A free record that is long enough. -/
def hasRoom (data : Bytes) (needed o : Nat) : Bool := decide (inodeAt data o = 0 ∧ needed ≤ recLenAt data o)

theorem addScan_succ (data : Bytes) (len needed fuel o start actual : Nat) :
    addScan data len needed (fuel + 1) o start actual =
      if o + 8 > len then .last start actual
      else if recLenAt data o < 8 ∨ o + recLenAt data o > len then .last start actual
      else if inodeAt data o = 0 ∧ recLenAt data o ≥ needed then .slot o (recLenAt data o)
      else addScan data len needed fuel (o + recLenAt data o) o (entrySize (nameLenAt data o)) := rfl

/-- The scan looks at the bytes of the directory only. -/
theorem addScan_congr (needed fuel o start actual : Nat) (hsame : ∀ j < len, data' j = data j) :
    addScan data' len needed fuel o start actual = addScan data len needed fuel o start actual := by
  induction fuel generalizing o start actual with
  | zero => rfl
  | succ fuel ih =>
    rw [addScan_succ, addScan_succ]
    by_cases hlen : o + 8 > len
    · rw [if_pos hlen, if_pos hlen]
    · have hrec : recLenAt data' o = recLenAt data o := leNat_congr fun j _ hj => hsame j (by omega)
      have hino : inodeAt data' o = inodeAt data o := leNat_congr fun j _ hj => hsame j (by omega)
      have hname : nameLenAt data' o = nameLenAt data o := congrArg BitVec.toNat (hsame _ (by omega))
      rw [if_neg hlen, if_neg hlen, hrec, hino, hname, ih]

/-- **The scan of `add_dir_entry`** finds the first free record that is long enough, and otherwise ends at the last one. -/
theorem addScan_eq (needed : Nat) (h : Tiles (recLenAt data) len a l) (hgood : ∀ o ∈ l, GoodRecord Q blockSize data o)
    {fuel : Nat} (hfuel : len - a ≤ fuel) (start actual : Nat) :
    addScan data len needed fuel a start actual = match l.find? (hasRoom data needed) with
      | some o => .slot o (recLenAt data o)
      | none => match l.getLast? with
        | some o => .last o (entrySize (nameLenAt data o))
        | none => .last start actual := by
  induction l generalizing a fuel start actual with
  | nil =>
    obtain rfl : a = len := h
    cases fuel with
    | zero => rfl
    | succ fuel =>
      rw [addScan_succ, if_pos (by omega)]
      rfl
  | cons o l ih =>
    obtain ⟨rfl, hpos, hrest⟩ := h
    have hrec := hgood o (List.mem_cons_self ..)
    have hle := hrest.le
    have hheader : 8 ≤ recLenAt data o := hrec.header
    obtain ⟨fuel, rfl⟩ := Nat.exists_eq_succ_of_ne_zero (show fuel ≠ 0 by omega)
    rw [addScan_succ, if_neg (by omega), if_neg (by omega), List.find?_cons]
    by_cases hroom : inodeAt data o = 0 ∧ recLenAt data o ≥ needed
    · rw [if_pos hroom, show hasRoom data needed o = true from decide_eq_true hroom]
    · rw [if_neg hroom, show hasRoom data needed o = false from decide_eq_false hroom,
        ih hrest (fun x hx => hgood x (List.mem_cons_of_mem _ hx)) (by omega)]
      cases l with
      | nil => rfl
      | cons p l => rfl

section Written

variable {buf : Bytes} {ino recLen : Nat} {fileType : Byte} {name : List Byte}

theorem writeDirEntryInBuf_same {j : Nat} (hj : j < o ∨ o + 8 + name.length ≤ j) :
    writeDirEntryInBuf buf o ino name.length fileType name recLen j = buf j := by
  simp only [writeDirEntryInBuf, putList, putLe, DIR_ENTRY_HEADER_SIZE, List.length_singleton]
  rw [blit_of_outside (by omega), blit_of_outside (by omega), blit_of_outside (by omega), blit_of_outside (by omega),
    blit_of_outside (by omega)]

/-- **A record that was written** is read back. -/
theorem writeDirEntryInBuf_spec (buf : Bytes) (o : Nat) (fileType : Byte) (hino : ino < 2 ^ 32) (hrec : recLen < 2 ^ 16) (hname : name.length < 2 ^ 8) :
    inodeAt (writeDirEntryInBuf buf o ino name.length fileType name recLen) o = ino ∧
      recLenAt (writeDirEntryInBuf buf o ino name.length fileType name recLen) o = recLen ∧
      nameLenAt (writeDirEntryInBuf buf o ino name.length fileType name recLen) o = name.length ∧
      entryAt (writeDirEntryInBuf buf o ino name.length fileType name recLen) o = ⟨ino, fileType, name⟩ := by
  have hinode : inodeAt (writeDirEntryInBuf buf o ino name.length fileType name recLen) o = ino := by
    simp only [inodeAt, writeDirEntryInBuf, putList, DIR_ENTRY_HEADER_SIZE]
    rw [leNat_blit_of_disjoint (by omega), leNat_blit_of_disjoint (by omega), leNat_putLe_of_disjoint _ (by omega),
      leNat_putLe_of_disjoint _ (by omega), leNat_putLe_of_lt hino]
  have hlen : nameLenAt (writeDirEntryInBuf buf o ino name.length fileType name recLen) o = name.length := by
    simp only [nameLenAt, writeDirEntryInBuf, putList, putLe, DIR_ENTRY_HEADER_SIZE]
    rw [blit_of_outside (by omega), blit_of_outside (by omega), blit_of_inside (by omega) (by omega), Nat.sub_self]
    simp only [toLe, Nat.pow_zero, Nat.div_one, BitVec.toNat_ofNat]
    omega
  refine ⟨hinode, ?_, hlen, ?_⟩
  · simp only [recLenAt, writeDirEntryInBuf, putList, DIR_ENTRY_HEADER_SIZE]
    rw [leNat_blit_of_disjoint (by omega), leNat_blit_of_disjoint (by omega), leNat_putLe_of_disjoint _ (by omega),
      leNat_putLe_of_lt hrec]
  · rw [entryAt, hinode, nameAt, hlen]
    congr 1
    · simp only [writeDirEntryInBuf, putList, DIR_ENTRY_HEADER_SIZE]
      rw [blit_of_outside (by omega), blit_of_inside (by omega) (by simp), Nat.sub_self]
      rfl
    · exact slice_putList

end Written

/-- The entries of one image are those of another and one more. -/
def Inserted (entry : LiveEntry) (before after : List LiveEntry) : Prop :=
  ∃ front back, before = front ++ back ∧ after = front ++ entry :: back

/-- A part of a record lies in its block. -/
theorem GoodRecord.part (h : GoodRecord Q blockSize data o) {p m : Nat} (hm : 0 < m) (h₁ : o ≤ p)
    (h₂ : p + m ≤ o + recLenAt data o) : (p + m - 1) / blockSize = p / blockSize :=
  (h.block (by omega) (by omega)).trans (h.block h₁ (by omega)).symm

theorem Aligned.good {m i k : Nat} (h : Aligned m i k) (hrec : recLenAt data o = m) (hino : inodeAt data o = i)
    (hname : nameLenAt data o = k) (hm : 8 ≤ m) (hblock : (o + m - 1) / blockSize = o / blockSize) :
    GoodRecord Aligned blockSize data o := by
  subst hrec hino hname
  refine ⟨hm, hblock, fun hlive => ?_, h⟩
  have hle : entrySize (nameLenAt data o) ≤ recLenAt data o := h.2 hlive
  have := (entrySize_spec (nameLenAt data o)).2.1
  exact Nat.le_trans this hle

section Added

variable {ino : Nat} {fileType : Byte} {name : List Byte}

/-- The bytes after a free record of `recLen` bytes was used: what is left of it is a free record if it is long enough. -/
def reusedData (data : Bytes) (o recLen ino : Nat) (fileType : Byte) (name : List Byte) : Bytes :=
  let needed := entrySize name.length
  let leftover := recLen - needed
  let split := leftover ≥ DIR_ENTRY_HEADER_SIZE
  let data := writeDirEntryInBuf data o ino name.length fileType name (if split then needed else recLen)
  if split then putLe (putLe data (o + needed) 4 0) (o + needed + 4) 2 leftover else data

theorem reusedData_split {m : Nat} (h : 8 ≤ m - entrySize name.length) : reusedData data o m ino fileType name =
    putLe (putLe (writeDirEntryInBuf data o ino name.length fileType name (entrySize name.length))
      (o + entrySize name.length) 4 0) (o + entrySize name.length + 4) 2 (m - entrySize name.length) := by
  simp [reusedData, DIR_ENTRY_HEADER_SIZE, h]

theorem reusedData_whole {m : Nat} (h : ¬ 8 ≤ m - entrySize name.length) : reusedData data o m ino fileType name =
    writeDirEntryInBuf data o ino name.length fileType name m := by
  simp [reusedData, DIR_ENTRY_HEADER_SIZE, h]

theorem reusedData_same {m j : Nat} (hm : entrySize name.length ≤ m) (hj : j < o ∨ o + m ≤ j) :
    reusedData data o m ino fileType name j = data j := by
  have hsize := entrySize_spec name.length
  by_cases hsplit : 8 ≤ m - entrySize name.length
  · rw [reusedData_split hsplit, putLe, putLe, blit_of_outside (by omega), blit_of_outside (by omega),
      writeDirEntryInBuf_same (by omega)]
  · rw [reusedData_whole hsplit, writeDirEntryInBuf_same (by omega)]

/-- Records that take the place of one record. -/
theorem WellFormed.replace (h : WellFormed Q blockSize len data (pre ++ o :: post)) (mid : List Nat)
    (hsame : ∀ j, j < o ∨ o + recLenAt data o ≤ j → data' j = data j)
    (hmid : Tiles (recLenAt data') (o + recLenAt data o) o mid) (hgood : ∀ x ∈ mid, GoodRecord Q blockSize data' x) :
    WellFormed Q blockSize len data' (pre ++ (mid ++ post)) ∧
      entries data' (pre ++ (mid ++ post)) = entries data pre ++ (entries data' mid ++ entries data post) := by
  obtain ⟨hpre, -, hpost⟩ := tiles_at.1 h.tiles
  refine rebuild mid h.whole hpre hpost (fun x hx => h.good x ?_) (fun j hj _ => hsame j hj) (Nat.le_add_right ..) hmid hgood
  rcases List.mem_append.1 hx with hx | hx <;> simp [hx]

/-- The record at `o` becomes the new one, and a free one if there is space left. -/
theorem reused_records (fileType : Byte) (hold : GoodRecord Aligned blockSize data o) (hbs : blockSize < 2 ^ 16) (hpos : 0 < blockSize)
    (hroom : entrySize name.length ≤ recLenAt data o) (hino : 0 < ino) (hino' : ino < 2 ^ 32)
    (hname : name.length < 2 ^ 8) :
    ∃ mid, Tiles (recLenAt (reusedData data o (recLenAt data o) ino fileType name)) (o + recLenAt data o) o mid ∧
      (∀ x ∈ mid, GoodRecord Aligned blockSize (reusedData data o (recLenAt data o) ino fileType name) x) ∧
      entries (reusedData data o (recLenAt data o) ino fileType name) mid = [⟨ino, fileType, name⟩] := by
  have hmbs := hold.le_blockSize hpos
  obtain ⟨hdvd, hfits, hmin, hmax⟩ := entrySize_spec name.length
  have hdvd' : 4 ∣ recLenAt data o := hold.shape.1
  by_cases hsplit : 8 ≤ recLenAt data o - entrySize name.length
  · obtain ⟨hw₁, hw₂, hw₃, hw₄⟩ := writeDirEntryInBuf_spec data o fileType hino'
      (show entrySize name.length < 2 ^ 16 by omega) hname
    rw [reusedData_split hsplit]
    obtain ⟨d, hd⟩ : ∃ d, d = putLe (putLe (writeDirEntryInBuf data o ino name.length fileType name (entrySize name.length))
      (o + entrySize name.length) 4 0) (o + entrySize name.length + 4) 2 (recLenAt data o - entrySize name.length) := ⟨_, rfl⟩
    rw [← hd]
    -- the new record is not touched by the header of the free one
    have hgood : GoodRecord Aligned blockSize (writeDirEntryInBuf data o ino name.length fileType name
        (entrySize name.length)) o :=
      Aligned.good ⟨hdvd, fun _ => Nat.le_refl _⟩ hw₂ hw₁ hw₃ (by omega) (hold.part (by omega) (Nat.le_refl o) (by omega))
    have hsame : ∀ j, o ≤ j → j < o + recLenAt (writeDirEntryInBuf data o ino name.length fileType name
        (entrySize name.length)) o → d j = _ := fun j h₁ h₂ => by
      rw [hd, putLe, putLe, blit_of_outside (by omega), blit_of_outside (by omega)]
    obtain ⟨hgood', hrec, hlive, hentry⟩ := hgood.congr hsame
    rw [hw₂] at hrec
    rw [hw₁] at hlive hentry
    have hino₂ : inodeAt d (o + entrySize name.length) = 0 := by
      rw [hd]
      exact (leNat_putLe_of_disjoint _ (by omega)).trans (leNat_putLe_of_lt (by decide))
    have hrec₂ : recLenAt d (o + entrySize name.length) = recLenAt data o - entrySize name.length := by
      rw [hd]
      exact leNat_putLe_of_lt (by omega)
    refine ⟨[o, o + entrySize name.length], ?_, fun x hx => ?_, ?_⟩
    · exact tiles_two (by omega) (by omega) (tiles_one (by omega) (by omega))
    · rcases List.mem_pair.1 hx with rfl | rfl
      · exact hgood'
      · exact Aligned.good (m := recLenAt data o - entrySize name.length) (i := 0) ⟨by omega, fun h => absurd rfl h⟩ hrec₂ hino₂ rfl
          hsplit (hold.part (by omega) (by omega) (by omega))
    · rw [entries_cons, entries_cons, if_neg (by omega), if_pos hino₂, hentry (by omega), hw₄]
      rfl
  · obtain ⟨hw₁, hw₂, hw₃, hw₄⟩ := writeDirEntryInBuf_spec data o fileType hino'
      (show recLenAt data o < 2 ^ 16 by omega) hname
    rw [reusedData_whole hsplit]
    refine ⟨[o], ?_, fun x hx => ?_, ?_⟩
    · exact tiles_one (by omega) (by omega)
    · rw [List.mem_singleton.1 hx]
      exact Aligned.good ⟨hdvd', fun _ => hroom⟩ hw₂ hw₁ hw₃ (by omega) hold.inBlock
    · rw [entries_cons, if_neg (by omega), hw₄]
      rfl

/-- **A free record is used.** -/
theorem reuse_wellFormed (fileType : Byte) (h : WellFormed Aligned blockSize len data (pre ++ o :: post)) (hbs : blockSize < 2 ^ 16)
    (hpos : 0 < blockSize) (hfree : inodeAt data o = 0) (hroom : entrySize name.length ≤ recLenAt data o) (hino : 0 < ino)
    (hino' : ino < 2 ^ 32) (hname : name.length < 2 ^ 8) :
    ∃ l', WellFormed Aligned blockSize len (reusedData data o (recLenAt data o) ino fileType name) l' ∧
      Inserted ⟨ino, fileType, name⟩ (entries data (pre ++ o :: post))
        (entries (reusedData data o (recLenAt data o) ino fileType name) l') := by
  obtain ⟨mid, hmid, hgood, hentries⟩ := reused_records fileType (h.good o (by simp)) hbs hpos hroom hino hino' hname
  obtain ⟨hwf, hnew⟩ := h.replace mid (fun j hj => reusedData_same hroom hj) hmid hgood
  refine ⟨_, hwf, entries data pre, entries data post, ?_, ?_⟩
  · rw [entries_append, entries_cons, if_pos hfree, List.nil_append]
  · rw [hnew, hentries]
    rfl

/-- The bytes after the last record has given away what it does not need. -/
def sharedData (data : Bytes) (o ino : Nat) (fileType : Byte) (name : List Byte) : Bytes :=
  writeDirEntryInBuf (putLe data (o + 4) 2 (entrySize (nameLenAt data o))) (o + entrySize (nameLenAt data o)) ino
    name.length fileType name (recLenAt data o - entrySize (nameLenAt data o))

theorem sharedData_same {j : Nat} (hroom : entrySize (nameLenAt data o) + entrySize name.length ≤ recLenAt data o)
    (hj : j < o ∨ o + recLenAt data o ≤ j) : sharedData data o ino fileType name j = data j := by
  have hsize := entrySize_spec name.length
  have hsize' := entrySize_spec (nameLenAt data o)
  rw [sharedData, writeDirEntryInBuf_same (by omega), putLe, blit_of_outside (by omega)]

/-- **The last record is shared.** -/
theorem share_wellFormed (fileType : Byte) (h : WellFormed Aligned blockSize len data (pre ++ [o])) (hbs : blockSize < 2 ^ 16)
    (hpos : 0 < blockSize) (hroom : entrySize (nameLenAt data o) + entrySize name.length ≤ recLenAt data o) (hino : 0 < ino)
    (hino' : ino < 2 ^ 32) (hname : name.length < 2 ^ 8) :
    ∃ l', WellFormed Aligned blockSize len (sharedData data o ino fileType name) l' ∧
      Inserted ⟨ino, fileType, name⟩ (entries data (pre ++ [o])) (entries (sharedData data o ino fileType name) l') := by
  have hold := h.good o (by simp)
  have hmbs := hold.le_blockSize hpos
  obtain ⟨hdvd, hfits, hmin, hmax⟩ := entrySize_spec name.length
  obtain ⟨actual, hactual⟩ : ∃ k, entrySize (nameLenAt data o) = k := ⟨_, rfl⟩
  obtain ⟨hdvd₁, hfits₁, hmin₁, hmax₁⟩ := hactual ▸ entrySize_spec (nameLenAt data o)
  have hdvd' : 4 ∣ recLenAt data o := hold.shape.1
  rw [hactual] at hroom
  obtain ⟨d, hd⟩ : ∃ d, d = sharedData data o ino fileType name := ⟨_, rfl⟩
  rw [← hd]
  rw [sharedData, hactual] at hd
  obtain ⟨hw₁, hw₂, hw₃, hw₄⟩ := writeDirEntryInBuf_spec (putLe data (o + 4) 2 actual) (o + actual)
    fileType hino' (show recLenAt data o - actual < 2 ^ 16 by omega) hname
  rw [← hd] at hw₁ hw₂ hw₃ hw₄
  -- of the old record only the length has changed
  have hsame : ∀ j, j < o + actual → j < o + 4 ∨ o + 6 ≤ j → d j = data j := fun j h₁ h₂ => by
    rw [hd, writeDirEntryInBuf_same (by omega), putLe, blit_of_outside (by omega)]
  have hrec : recLenAt d o = actual := by
    have hkeep : recLenAt d o = recLenAt (putLe data (o + 4) 2 actual) o := leNat_congr fun j h₁ h₂ => by
      rw [hd, writeDirEntryInBuf_same (by omega)]
    exact hkeep.trans (leNat_putLe_of_lt (by omega))
  have hinode : inodeAt d o = inodeAt data o := leNat_congr fun j h₁ h₂ => hsame j (by omega) (by omega)
  have hlen : nameLenAt d o = nameLenAt data o := congrArg BitVec.toNat (hsame _ (by omega) (by omega))
  have hentry : entryAt d o = entryAt data o := by
    rw [entryAt, entryAt, hinode, hsame _ (by omega) (by omega), nameAt, nameAt, hlen]
    congr 1
    exact slice_congr fun j h₁ h₂ => hsame j (by simp only [DIR_ENTRY_HEADER_SIZE] at h₂; omega)
      (by simp only [DIR_ENTRY_HEADER_SIZE] at h₁; omega)
  have hout : ∀ j, j < o ∨ o + recLenAt data o ≤ j → d j = data j := fun j hj => by
    rw [hd, writeDirEntryInBuf_same (by omega), putLe, blit_of_outside (by omega)]
  obtain ⟨hwf, hnew⟩ := h.replace [o, o + actual] hout (tiles_two (by omega) (by omega) (tiles_one (by omega) (by omega))) (fun x hx => by
      rcases List.mem_pair.1 hx with rfl | rfl
      · exact Aligned.good ⟨hdvd₁, fun _ => Nat.le_of_eq hactual⟩ hrec rfl hlen (by omega)
          (hold.part (by omega) (Nat.le_refl _) (by omega))
      · exact Aligned.good (m := recLenAt data o - actual) ⟨by omega, fun _ => by omega⟩ hw₂ hw₁ hw₃ (by omega)
          (hold.part (by omega) (by omega) (by omega)))
  refine ⟨_, hwf, entries data (pre ++ [o]), [], (List.append_nil _).symm, ?_⟩
  rw [hnew, entries_append, entries_cons d o, entries_cons d (o + actual), entries_cons data o, hinode, hentry,
    if_neg (show inodeAt d (o + actual) ≠ 0 by omega), hw₄]
  simp

/-- A record of the bytes from `s` on. -/
theorem record_dropBytes (data : Bytes) (s : Nat) : inodeAt (dropBytes data s) 0 = inodeAt data s ∧
    recLenAt (dropBytes data s) 0 = recLenAt data s ∧ nameLenAt (dropBytes data s) 0 = nameLenAt data s ∧
    entryAt (dropBytes data s) 0 = entryAt data s := by
  have hinode : inodeAt (dropBytes data s) 0 = inodeAt data s := leNat_dropBytes
  refine ⟨hinode, leNat_dropBytes, rfl, ?_⟩
  rw [entryAt, entryAt, hinode]
  congr 1
  refine List.map_congr_left fun k _ => ?_
  simp [dropBytes, Nat.add_assoc]

/-- The block that is appended. -/
def appendedBlock (blockSize ino : Nat) (fileType : Byte) (name : List Byte) : Bytes :=
  writeDirEntryInBuf (fun _ => 0) 0 ino name.length fileType name blockSize

theorem appendedBlock_spec (fileType : Byte) (hino : ino < 2 ^ 32) (hbs : blockSize < 2 ^ 16) (hname : name.length < 2 ^ 8) :
    inodeAt (appendedBlock blockSize ino fileType name) 0 = ino ∧
      recLenAt (appendedBlock blockSize ino fileType name) 0 = blockSize ∧
      nameLenAt (appendedBlock blockSize ino fileType name) 0 = name.length ∧
      entryAt (appendedBlock blockSize ino fileType name) 0 = ⟨ino, fileType, name⟩ :=
  writeDirEntryInBuf_spec _ _ _ hino hbs hname

/-- **A block is appended.** -/
theorem append_wellFormed (h : WellFormed Aligned blockSize len data l) (hbs : blockSize < 2 ^ 16) (h1024 : 1024 ≤ blockSize)
    (hdvd : 4 ∣ blockSize) (hino : 0 < ino) (hino' : ino < 2 ^ 32) (hname : name.length < 2 ^ 8)
    (hold : ∀ j < len, data' j = data j)
    (hnew : ∀ i < blockSize, data' (len + i) = appendedBlock blockSize ino fileType name i) :
    WellFormed Aligned blockSize (len + blockSize) data' (l ++ [len]) ∧
      Inserted ⟨ino, fileType, name⟩ (entries data l) (entries data' (l ++ [len])) := by
  obtain ⟨hw₁, hw₂, hw₃, hw₄⟩ := appendedBlock_spec fileType hino' hbs hname
  obtain ⟨-, hfits, hmin, hmax⟩ := entrySize_spec name.length
  have haligned : Aligned blockSize ino name.length := ⟨hdvd, fun _ => by omega⟩
  have hfirst : GoodRecord Aligned blockSize (appendedBlock blockSize ino fileType name) 0 :=
    haligned.good hw₂ hw₁ hw₃ (by omega) (by rw [Nat.div_eq_of_lt (by omega), Nat.zero_div])
  have hsame : ∀ j, 0 ≤ j → j < 0 + recLenAt (appendedBlock blockSize ino fileType name) 0 →
      dropBytes data' len j = appendedBlock blockSize ino fileType name j := fun j _ hj =>
    hnew j (by rw [Nat.zero_add, hw₂] at hj; exact hj)
  obtain ⟨hgood, hrec, hinode, hentry⟩ := hfirst.congr hsame
  obtain ⟨hd₁, hd₂, hd₃, hd₄⟩ := record_dropBytes data' len
  rw [hd₁, hw₁] at hinode
  rw [hd₂, hw₂] at hrec
  rw [hd₄, hw₁, hw₄] at hentry
  have hblock : (len + blockSize - 1) / blockSize = len / blockSize := by
    obtain ⟨k, rfl⟩ := h.whole
    rw [Nat.add_sub_assoc (by omega), Nat.mul_add_div (by omega), Nat.mul_div_cancel_left _ (by omega),
      Nat.div_eq_of_lt (by omega), Nat.add_zero]
  have hlast : GoodRecord Aligned blockSize data' len := by
    refine ⟨by rw [hrec]; exact (by omega : 8 ≤ blockSize), by rw [hrec]; exact hblock, fun hlive => ?_, ?_⟩
    · have := hgood.fits (by rw [hd₁]; exact hlive)
      rwa [hd₂, hd₃] at this
    · have := hgood.shape
      rwa [hd₁, hd₂, hd₃] at this
  obtain ⟨hwf, hentries⟩ := h.congr hold
  have hone : entries data' [len] = [⟨ino, fileType, name⟩] := by
    rw [entries_cons, if_neg (by omega), hentry (by omega)]
    rfl
  refine ⟨⟨Nat.dvd_add h.whole (Nat.dvd_refl _), ?_, fun x hx => ?_⟩, entries data l, [], (List.append_nil _).symm, ?_⟩
  · exact tiles_append.2 ⟨len, hwf.tiles, tiles_one (by omega) (by omega)⟩
  · rcases List.mem_append.1 hx with hx | hx
    · exact hwf.good x hx
    · rw [List.mem_singleton.1 hx]
      exact hlast
  · rw [entries_append, hentries, hone]

end Added

end Records

end Koros.Ext2
