import Koros.Lib.Runs
import Koros.Ext2.NoSpace
import Koros.Ext2.DirEdit

/-!
# Directories under insertion and removal

What `add_dir_entry` and `remove_dir_entry` do to a whole directory, and what holds along a history of such calls that starts
at an empty directory.

- `dirEntry_removed`: a removal takes the first entry with the name out, or reports that there is none;
- `addDirEntry_ends`: an insertion, whether it succeeds or not;
- `dirEntry_inserted`: the records tile the blocks after every history, as long as the insertions find records with room for
  the names in their headers. The bytes of a freed record are not cleared, and the length of the old name in one that became
  the last record of the directory can be longer than what is left of the record (`stale_name_overruns`).
-/
set_option autoImplicit false

namespace Koros.Ext2

open Koros.Lib Xattr

/-! ## Insertion -/

section Insertion

variable {fs fs' : Ext2Fs} {P : Nat → Prop} {n : Nat} {r : RawInode} {l : List Nat}

/-- Without its index flag, a directory has the records that it had. -/
theorem DirState.demoted (h : DirState P n fs l) (hr : fs.inodeCache n = some r) (hdem : Demoted n r fs fs')
    (hc : fs'.Consistent) :
    DirState P n fs' l ∧ Step n fs fs' ∧ fs'.content n = fs.content n ∧ fs'.fileSize n = fs.fileSize n := by
  obtain ⟨r₀, hr₀, hdir⟩ := h.dir
  obtain rfl : r₀ = r := Option.some.inj (hr₀.symm.trans hr)
  obtain ⟨hkept, r', hr', hsame, hsize⟩ := hdem.kept h.sound hr (.inr hdir)
  have hdir' : r'.fmt = EXT2_S_IFDIR := hsame.fmt.trans hdir
  have hcontent := hkept.content h.sound n
  have hfile : fs'.fileSize n = fs.fileSize n := by rw [fileSize_of_dir hr' hdir', fileSize_of_dir hr hdir, hsize]
  refine ⟨⟨hkept.sound, hc, ⟨r', hr', hdir'⟩, ?_⟩, hkept.step, hcontent, hfile⟩
  rw [hcontent, hfile, hkept.step.layout.blockSize]
  exact h.image

/-- A call on another inode leaves a directory alone. -/
theorem DirState.frame {m : Nat} (h : DirState P m fs l) (hstep : Step n fs fs') (hm : m ≠ n) (hs : fs'.Sound P)
    (hc : fs'.Consistent) : DirState P m fs' l := by
  obtain ⟨r, hr, hdir⟩ := h.dir
  have hr' : fs'.inodeCache m = some r := (hstep.cache m hm).trans hr
  refine ⟨hs, hc, ⟨r, hr', hdir⟩, ?_⟩
  rw [hstep.layout.blockSize, hstep.content hm, fileSize_of_dir hr' hdir, ← fileSize_of_dir hr hdir]
  exact h.image

/-- **`add_dir_entry`**, whether it succeeds or not. -/
theorem addDirEntry_ends (h : DirState P n fs l) {name : String} {child : Nat} (hchild : 0 < child) (hchild' : child < 2 ^ 32)
    (fileType : Byte) (hok : Insertable fs n name) :
    Ends (fun _ fs' => DirAdds P n (newEntry fs name child fileType) (entries (fs.content n) l) fs fs') Reports
      (addDirEntry n name child fileType) fs := by
  obtain ⟨r, hr, hdir⟩ := h.dir
  rw [addDirEntry]
  by_cases hname : (asBytes name).length = 0 ∨ (asBytes name).length > 255
  · rw [if_pos hname]
    exact .error rfl nofun
  rw [if_neg hname]
  refine (demoteFromHtree_ends h.sound h.consistent hr (.inr hdir)).bind ?_
  rintro - fs₁ ⟨hdem, hc₁⟩
  obtain ⟨hstate, hstep, hcontent, hsize⟩ := h.demoted hr hdem hc₁
  obtain ⟨r₁, hr₁, hdir₁⟩ := hstate.dir
  obtain ⟨data, hread, hdata⟩ := hstate.image.dirData hstate.sound hr₁ hdir₁
  have hok₁ : Insertable fs₁ n name := by
    rw [Insertable, hcontent, hsize, hstep.layout.blockSize]
    exact hok
  refine .congr (get_bind ..) (.step hread ?_)
  refine (insertRecord_ends hstate hdata (by omega) hchild hchild' _ hok₁).imp ?_ fun _ _ he => he
  rintro - fs' - ⟨l', hstate', hstep', hins⟩
  rw [hcontent, hstep.layout.hasFiletype] at hins
  exact ⟨l', hstate', hstep.trans hstep', hins⟩

/-! ### Places -/

/-- Where the records of a directory are, one behind the other. -/
def recordsFrom (data : Bytes) (len : Nat) : (fuel offset : Nat) → List Nat
  | 0, _ => []
  | fuel + 1, offset => if offset < len then offset :: recordsFrom data len fuel (offset + recLenAt data offset) else []

theorem recordsFrom_eq {data : Bytes} {len a fuel : Nat} (h : Tiles (recLenAt data) len a l) (hfuel : len - a ≤ fuel) :
    recordsFrom data len fuel a = l := by
  induction l generalizing a fuel with
  | nil =>
    obtain rfl : a = len := h
    cases fuel with
    | zero => rfl
    | succ fuel => rw [recordsFrom, if_neg (Nat.lt_irrefl _)]
  | cons o l ih =>
    obtain ⟨rfl, hpos, hrest⟩ := h
    have hle := hrest.le
    obtain ⟨fuel, rfl⟩ := Nat.exists_eq_succ_of_ne_zero (show fuel ≠ 0 by omega)
    rw [recordsFrom, if_pos (by omega), ih hrest (by omega)]

def Ext2Fs.records (fs : Ext2Fs) (n : Nat) : List Nat := recordsFrom (fs.content n) (fs.fileSize n) (fs.fileSize n) 0

theorem DirState.records (h : DirState P n fs l) : fs.records n = l := recordsFrom_eq h.image.tiles (Nat.sub_le ..)

/-- A directory has a place for a name: a free record, or else the last record is as long as the length of the name in its
header asks for, used or not, and has space behind that or the directory can grow by a block. -/
def HasPlace (fs : Ext2Fs) (n : Nat) (name : String) : Prop :=
  (∃ o ∈ fs.records n, inodeAt (fs.content n) o = 0 ∧ entrySize (asBytes name).length ≤ recLenAt (fs.content n) o) ∨
    (∀ o ∈ (fs.records n).getLast?, entrySize (nameLenAt (fs.content n) o) ≤ recLenAt (fs.content n) o) ∧
      ((∃ o ∈ (fs.records n).getLast?,
        entrySize (nameLenAt (fs.content n) o) + entrySize (asBytes name).length ≤ recLenAt (fs.content n) o) ∨
        fs.fileSize n + fs.blockSize < 2 ^ 32)

instance HasPlace.decidable (fs : Ext2Fs) (n : Nat) (name : String) : Decidable (HasPlace fs n name) :=
  inferInstanceAs (Decidable (_ ∨ _))

theorem DirState.insertable (h : DirState P n fs l) (hbs : fs.blockSize < 2 ^ 16) {name : String}
    (hplace : HasPlace fs n name) : Insertable fs n name := by
  refine ⟨hbs, ?_⟩
  rw [addScan_eq _ h.image.tiles h.image.good (show fs.fileSize n - 0 ≤ fs.fileSize n from Nat.sub_le ..) 0 0]
  rw [HasPlace, h.records] at hplace
  cases hfind : l.find? (hasRoom (fs.content n) (entrySize (asBytes name).length)) with
  | some o => trivial
  | none =>
    have hfull : ¬ ∃ o ∈ l, inodeAt (fs.content n) o = 0 ∧
        entrySize (asBytes name).length ≤ recLenAt (fs.content n) o := by
      rintro ⟨o, ho, hroom⟩
      exact List.find?_eq_none.1 hfind o ho (decide_eq_true hroom)
    obtain ⟨hcovers, hspace⟩ := hplace.resolve_left hfull
    cases hlast : l.getLast? with
    | none =>
      refine ⟨Nat.zero_le _, fun _ => hspace.resolve_left ?_⟩
      rintro ⟨o, ho, -⟩
      rw [hlast] at ho
      cases ho
    | some o =>
      refine ⟨hcovers o hlast, fun hshort => hspace.resolve_left ?_⟩
      rintro ⟨o', ho', hroom⟩
      obtain rfl : o = o' := Option.some.inj (hlast.symm.trans ho')
      obtain ⟨-, -, hmin, -⟩ := entrySize_spec (nameLenAt (fs.content n) o)
      omega

/-- An empty directory has a place. -/
theorem DirState.hasPlace (h : DirState P n fs []) (hbs : fs.blockSize < 2 ^ 16) (name : String) : HasPlace fs n name := by
  have hsize : 0 = fs.fileSize n := h.image.tiles
  refine .inr ⟨?_, .inr (by omega)⟩
  rw [h.records]
  nofun

/-! ### An image -/

/-- An empty directory, and one with an index. -/
def emptyDir (indexed : Bool) : RawInode :=
  RawInode.ofBytes fun j => if j = 1 then 0x40 else if j = 33 ∧ indexed then 0x10 else 0

/-- The image with an empty directory in memory. -/
def dirImage (indexed : Bool) : Ext2Fs := fileImage.setInode 1 (some (emptyDir indexed))

theorem emptyDir_get (indexed : Bool) {i m : Nat} (hi : 40 ≤ i) : (emptyDir indexed).get i m = 0 := by
  refine (leNat_congr fun j hj _ => ?_).trans leNat_zero
  show (if j < 128 then (if j = 1 then _ else if j = 33 ∧ indexed = true then _ else 0) else 0) = (0 : Byte)
  simp [show j ≠ 1 by omega, show j ≠ 33 by omega]

/-- An empty directory has no records. -/
theorem dirState_empty (hs : fs.Sound P) (hc : fs.Consistent) {indexed : Bool} (hr : fs.inodeCache n = some (emptyDir indexed)) :
    DirState P n fs [] := by
  have hdir : (emptyDir indexed).fmt = EXT2_S_IFDIR ∧ (emptyDir indexed).size32 = 0 := by
    cases indexed <;> decide +kernel
  have hsize : fs.fileSize n = 0 := (fileSize_of_dir hr hdir.1).trans hdir.2
  refine ⟨hs, hc, ⟨_, hr, hdir.1⟩, ⟨?_, ?_, fun _ h => by cases h⟩⟩
  · rw [hsize]
    exact Nat.dvd_zero _
  · rw [hsize]
    rfl

theorem dirImage_state (indexed : Bool) : DirState (fun _ => False) 1 (dirImage indexed) [] := by
  have hn : fileImage.IsSlot 1 := by decide
  exact dirState_empty (fileImage_sound.setInode_bare hn (fun i m hi => fileImage_get hn (by omega))
    fun i m hi => emptyDir_get indexed hi) (consistent_withCache fileImage_consistent _) rfl

end Insertion

/-! ## Removal -/

section Removal

variable {fs fs' : Ext2Fs} {P : Nat → Prop} {n : Nat} {r : RawInode} {l : List Nat}

/-- **`remove_dir_entry`**: the first entry with the name is gone and all others are as they were; without such an entry
nothing has changed but the index flag of the directory. -/
theorem dirEntry_removed (h : fs.Sound P) (hr : fs.inodeCache n = some r) (hdir : r.fmt = EXT2_S_IFDIR)
    (hro : fs.readOnly = false) (hbs : fs.blockSize < 2 ^ 16)
    (hwf : WellFormed (fun _ _ _ => True) fs.blockSize (fs.fileSize n) (fs.content n) l) (name : String) :
    ((∀ e ∈ entries (fs.content n) l, e.name ≠ asBytes name) →
      ∃ fs', removeDirEntry n name fs = .error (.err .notFound) fs' ∧ Demoted n r fs fs') ∧
    ((∃ e ∈ entries (fs.content n) l, e.name = asBytes name) →
      ∃ fs' l', removeDirEntry n name fs = .ok ⟨⟩ fs' ∧ Step n fs fs' ∧ fs'.fileSize n = fs.fileSize n ∧
        WellFormed (fun _ _ _ => True) fs'.blockSize (fs'.fileSize n) (fs'.content n) l' ∧
        entries (fs'.content n) l' = (entries (fs.content n) l).eraseP fun e => e.name = asBytes name) := by
  have hsize := fileSize_of_dir hr hdir
  rw [hsize] at hwf
  obtain ⟨hnone, hsome⟩ := removeDirEntry_removes h hr hdir hro hbs (fun _ _ _ _ _ _ _ => ⟨trivial, fun _ => trivial⟩) hwf name
  refine ⟨hnone, fun hex => ?_⟩
  obtain ⟨fs', data, l', hrun, hholds, hwf', hleft⟩ := hsome hex
  obtain ⟨r', hr', hdir', hsize'⟩ := hholds.cached
  obtain ⟨himage, hentries⟩ := hwf'.congr hholds.bytes
  have hsize'' : fs'.fileSize n = r.size32 := (fileSize_of_dir hr' hdir').trans hsize'
  refine ⟨fs', l', hrun, hholds.step, hsize''.trans hsize.symm, ?_, hentries.trans hleft⟩
  rw [hsize'', hholds.step.layout.blockSize]
  exact himage

/-- An entry is added and removed again. -/
theorem dirEntry_removed_dirImage : ∃ fs fs' l l', addDirEntry 1 "a" 2 1 (dirImage false) = .ok ⟨⟩ fs ∧
    (∃ e ∈ entries (fs.content 1) l, e.name = asBytes "a") ∧ removeDirEntry 1 "a" fs = .ok ⟨⟩ fs' ∧
    entries (fs'.content 1) l' = (entries (fs.content 1) l).eraseP fun e => e.name = asBytes "a" := by
  obtain ⟨u, fs, hadd⟩ := exists_of_succeeds (addDirEntry 1 "a" 2 1) (dirImage false) (by decide +kernel)
  have hstate := dirImage_state false
  obtain ⟨l, hstate', hstep, front, back, -, hentries⟩ := (addDirEntry_ends hstate (by decide) (by decide) 1
    (hstate.insertable (by decide) (by decide +kernel))).of_ok hadd
  obtain ⟨r, hr, hdir⟩ := hstate'.dir
  have hex : ∃ e ∈ entries (fs.content 1) l, e.name = asBytes "a" :=
    ⟨_, hentries ▸ List.mem_append_right _ (List.mem_cons_self ..), rfl⟩
  obtain ⟨fs', l', hrun, -, -, -, hleft⟩ := (dirEntry_removed hstate'.sound hr hdir hstep.layout.readOnly
    (by rw [hstep.layout.blockSize]; decide) (hstate'.image.imp fun _ _ _ _ => trivial) "a").2 hex
  exact ⟨fs, fs', l, l', hadd, hex, hrun, hleft⟩

/-- A name is not there, and the inode has changed. -/
theorem removal_clears_index : DirState (fun _ => False) 1 (dirImage true) [] ∧
    ∃ fs', removeDirEntry 1 "a" (dirImage true) = .error (.err .notFound) fs' ∧ fs' ≠ dirImage true := by
  obtain ⟨fs', hrun, hp⟩ := exists_of_failsIn (removeDirEntry 1 "a") (dirImage true) (e := .err .notFound)
    (p := fun fs' => decide ((fs'.inodeCache 1).map RawInode.flags = some 0)) (by decide +kernel)
  refine ⟨dirImage_state true, fs', hrun, ?_⟩
  rintro rfl
  exact absurd (of_decide_eq_true hp) (by decide +kernel)

end Removal

/-! ## Histories -/

section Histories

variable {fs fs' : Ext2Fs} {P : Nat → Prop} {n : Nat} {r : RawInode} {l : List Nat}

theorem writeDirBlock_spent (hs : fs.Sound P) (hc : fs.Consistent) (hr : fs.inodeCache n = some r) (hdir : r.fmt = EXT2_S_IFDIR)
    {data : Bytes} {len o : Nat} {u : PUnit} (hrun : writeDirBlock n data len o fs = .ok u fs') :
    fs'.Consistent ∧ fs.readOnly = false := by
  rw [writeDirBlock, get_bind] at hrun
  obtain ⟨-, hrun⟩ := ite_panic_ok hrun
  obtain ⟨count, fs₁, hwrite, hrun⟩ := bind_eq_ok hrun
  obtain ⟨hc₁, hro⟩ := (writeAtLocked_ends hs hc hr (.inr hdir) _ _ _).of_ok hwrite
  rw [(pure_eq_ok hrun).2]
  exact ⟨hc₁, hro (blockSize_pos fs)⟩

theorem removeDirEntry_spent (h : DirState P n fs l) {name : String} {u : PUnit}
    (hrun : removeDirEntry n name fs = .ok u fs') : fs'.Consistent ∧ fs.readOnly = false := by
  obtain ⟨r, hr, hdir⟩ := h.dir
  obtain ⟨u₁, fs₁, hdemote, hrun⟩ := bind_eq_ok hrun
  obtain ⟨hdem, hc₁⟩ := (demoteFromHtree_ends h.sound h.consistent hr (.inr hdir)).of_ok hdemote
  obtain ⟨hstate, hstep, -⟩ := h.demoted hr hdem hc₁
  obtain ⟨r₁, hr₁, hdir₁⟩ := hstate.dir
  obtain ⟨data, hread, -⟩ := hstate.image.dirData hstate.sound hr₁ hdir₁
  rw [get_bind, bind_ok hread] at hrun
  dsimp only at hrun
  cases hscan : removeScan data (fs₁.fileSize n) (asBytes name) (fs₁.fileSize n) 0 with
  | error e =>
    rw [hscan] at hrun
    cases hrun
  | ok place =>
    rw [hscan] at hrun
    obtain ⟨hc', hro⟩ := writeDirBlock_spent hstate.sound hstate.consistent hr₁ hdir₁ hrun
    exact ⟨hc', hstep.layout.readOnly.symm.trans hro⟩

/-- A removal that succeeds takes an entry out. -/
theorem removeDirEntry_state (h : DirState P n fs l) (hbs : fs.blockSize < 2 ^ 16) {name : String} {u : PUnit}
    (hrun : removeDirEntry n name fs = .ok u fs') :
    ∃ l', DirState P n fs' l' ∧ Step n fs fs' ∧
      entries (fs'.content n) l' = (entries (fs.content n) l).eraseP fun e => e.name = asBytes name := by
  obtain ⟨r, hr, hdir⟩ := h.dir
  obtain ⟨hc', hro⟩ := removeDirEntry_spent h hrun
  obtain ⟨hnone, hsome⟩ := removeDirEntry_removes h.sound hr hdir hro hbs (Q := Aligned) (fun _ _ _ _ _ _ ha => aligned_free ha)
    (fileSize_of_dir hr hdir ▸ h.image) name
  by_cases hex : ∃ e ∈ entries (fs.content n) l, e.name = asBytes name
  · obtain ⟨fs₁, data, l', hrun₁, hholds, hwf, hleft⟩ := hsome hex
    rw [hrun] at hrun₁
    cases hrun₁
    obtain ⟨hstate, hentries⟩ := hholds.state hc' hwf
    exact ⟨l', hstate, hholds.step, hentries.trans hleft⟩
  · obtain ⟨fs₁, hrun₁, -⟩ := hnone fun e he hname => hex ⟨e, he, hname⟩
    rw [hrun] at hrun₁
    cases hrun₁

/-- A call on a directory. -/
inductive DirCall where
  | add (name : String) (child : Nat) (fileType : Byte)
  | remove (name : String)

def DirCall.run (n : Nat) : DirCall → FsM Unit
  | .add name child fileType => addDirEntry n name child fileType
  | .remove name => removeDirEntry n name

/-- The filesystem after a call that succeeds. -/
def dirStep (n : Nat) (fs : Ext2Fs) (call : DirCall) : Option Ext2Fs :=
  match call.run n fs with
  | .ok _ fs' => some fs'
  | .error .. => none

theorem dirStep_eq_some {call : DirCall} : dirStep n fs call = some fs' ↔ ∃ u, call.run n fs = .ok u fs' := by
  unfold dirStep
  cases call.run n fs <;> simp

/-- What an insertion asks for: an inode number, and a place in the directory. -/
def DirCall.Allowed (n : Nat) (fs : Ext2Fs) : DirCall → Prop
  | .add name child _ => 0 < child ∧ child < 2 ^ 32 ∧ HasPlace fs n name
  | .remove _ => True

instance DirCall.Allowed.decidable (n : Nat) (fs : Ext2Fs) : (call : DirCall) → Decidable (call.Allowed n fs)
  | .add name child _ => inferInstanceAs (Decidable (0 < child ∧ child < 2 ^ 32 ∧ HasPlace fs n name))
  | .remove _ => .isTrue trivial

/-- One call of a history. -/
theorem dirStep_state (hbs : fs.blockSize < 2 ^ 16) (h : DirState P n fs l) {call : DirCall} (hok : call.Allowed n fs)
    (hstep : dirStep n fs call = some fs') : ∃ l', DirState P n fs' l' ∧ Step n fs fs' := by
  obtain ⟨u, hrun⟩ := dirStep_eq_some.1 hstep
  cases call with
  | add name child fileType =>
    obtain ⟨hchild, hchild', hplace⟩ := hok
    obtain ⟨l', hstate, hstep, -⟩ := (addDirEntry_ends h hchild hchild' fileType
      (h.insertable hbs hplace)).of_ok hrun
    exact ⟨l', hstate, hstep⟩
  | remove name =>
    obtain ⟨l', hstate, hstep, -⟩ := removeDirEntry_state h hbs hrun
    exact ⟨l', hstate, hstep⟩

/-- **A history** of insertions and removals leaves a directory whose records tile its blocks. -/
theorem history_state (hbs : fs.blockSize < 2 ^ 16) (h : DirState P n fs l) {calls : List DirCall}
    (hok : Meets (dirStep n) (fun fs call => call.Allowed n fs) fs calls) (hrun : runs (dirStep n) fs calls = some fs') :
    (∃ l', DirState P n fs' l') ∧ Step n fs fs' := by
  have hvisits : Visits (dirStep n) (fun fs' => (∃ l', DirState P n fs' l') ∧ Step n fs fs') fs calls := by
    refine Visits.of_step (fun fs₁ call fs₂ hinv hok hstep => ?_) ⟨⟨l, h⟩, .refl n fs⟩ hok
    obtain ⟨⟨l₁, h₁⟩, hstep₁⟩ := hinv
    obtain ⟨l₂, h₂, hstep₂⟩ := dirStep_state (by rwa [hstep₁.layout.blockSize]) h₁ hok hstep
    exact ⟨⟨l₂, h₂⟩, hstep₁.trans hstep₂⟩
  exact hvisits.last hrun

/-- **Adding an entry** to a directory with a history: the call does not crash, and when it succeeds the records tile the
blocks again and hold the new entry beside the old ones. -/
theorem dirEntry_inserted (h : DirState P n fs []) (hbs : fs.blockSize < 2 ^ 16) {calls : List DirCall}
    (hok : Meets (dirStep n) (fun fs call => call.Allowed n fs) fs calls) (hrun : runs (dirStep n) fs calls = some fs')
    {name : String} {child : Nat} {fileType : Byte} (hadd : (DirCall.add name child fileType).Allowed n fs') :
    ∃ l, DirState P n fs' l ∧ Ends (fun _ fs'' => ∃ l', DirState P n fs'' l' ∧
      Inserted (newEntry fs' name child fileType) (entries (fs'.content n) l) (entries (fs''.content n) l')) Reports
      (addDirEntry n name child fileType) fs' := by
  obtain ⟨⟨l, hstate⟩, hstep⟩ := history_state hbs h hok hrun
  have hbs' : fs'.blockSize < 2 ^ 16 := by rwa [hstep.layout.blockSize]
  obtain ⟨hchild, hchild', hplace⟩ := hadd
  refine ⟨l, hstate, (addDirEntry_ends hstate hchild hchild' fileType (hstate.insertable hbs' hplace)).imp ?_ fun _ _ he => he⟩
  rintro - fs'' - ⟨l', hstate', -, hins⟩
  exact ⟨l', hstate', hins⟩

/-- An entry is removed, and a shorter name takes a part of its record. -/
theorem dirEntry_inserted_dirImage : ∃ fs' l,
    runs (dirStep 1) (dirImage true) [.add "abcdefgh" 2 1, .remove "abcdefgh", .add "b" 3 1] = some fs' ∧
    Ends (fun _ fs'' => ∃ l', DirState (fun _ => False) 1 fs'' l' ∧
      Inserted (newEntry fs' "c" 4 1) (entries (fs'.content 1) l) (entries (fs''.content 1) l')) Reports
      (addDirEntry 1 "c" 4 1) fs' := by
  obtain ⟨fs', hrun, hp⟩ := (Option.any_eq_true _ _).1 (show (runs (dirStep 1) (dirImage true)
    [.add "abcdefgh" 2 1, .remove "abcdefgh", .add "b" 3 1]).any
      (fun fs => decide ((DirCall.add "c" 4 1).Allowed 1 fs)) = true by decide +kernel)
  obtain ⟨l, -, hends⟩ := dirEntry_inserted (dirImage_state true) (by decide) (by decide +kernel) hrun (of_decide_eq_true hp)
  exact ⟨fs', l, hrun, hends⟩

/-- A name of `count` equal characters. -/
def longName (c : Char) (count : Nat) : String := String.ofList (List.replicate count c)

/-- The history of a directory whose last record is free, 92 bytes long, and has 97 in the place of the length of its name:
that byte belonged to the name of an entry that was removed. -/
def staleCalls : List DirCall :=
  [.add (longName 'a' 255) 2 1, .add (longName 'b' 255) 2 1, .add (longName 'c' 255) 2 1, .add (longName 'd' 120) 2 1,
    .add (longName 'a' 90) 2 1, .remove (longName 'a' 90), .add "b" 2 1]

/-- The next long name crashes the call. -/
theorem stale_name_overruns : DirState (fun _ => False) 1 (dirImage false) [] ∧
    ∃ fs', runs (dirStep 1) (dirImage false) staleCalls = some fs' ∧
      ∃ fs'', addDirEntry 1 (longName 'e' 255) 2 1 fs' = .error .panic fs'' := by
  obtain ⟨fs', hrun, hp⟩ := (Option.any_eq_true _ _).1 (show (runs (dirStep 1) (dirImage false) staleCalls).any
    (fun fs => failsIn .panic (fun _ => true) (addDirEntry 1 (longName 'e' 255) 2 1 fs)) = true by decide +kernel)
  obtain ⟨fs'', hpanic, -⟩ := exists_of_failsIn _ _ hp
  exact ⟨dirImage_state false, fs', hrun, fs'', hpanic⟩

end Histories

end Koros.Ext2
