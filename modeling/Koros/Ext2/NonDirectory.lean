import Koros.Ext2.Account
import Koros.Ext2.Footprint
import Koros.Ext2.ReadOnly

/-!
# Names in something that is no directory

`create`, `mkdir`, `mknod`, `symlink`, `link` and `rename` find out that a name is free by a failed look-up. The look-up
in an inode that is no directory fails too, and nothing else checks the type: the calls go on and write a directory record
into the file. They reject such an inode only when something else stands in the way (`Entry.Refused`), and then they leave
the filesystem as it was; a creation that nothing stands in the way of takes an inode (`non_directory_entry`).
-/
set_option autoImplicit false

namespace Koros.Ext2

open Koros.Lib

/-- A call that enters a name into the inode it is made on. -/
inductive Entry where
  | create (name : String) (fileType : FileType) (mode : Nat)
  | mknod (name : String) (fileType : FileType) (mode rdev : Nat)
  | symlink (name target : String)
  | mkdir (name : String) (mode : Nat)
  | link (name : String) (target : Nat)
  /-- Rename from directory `dir`, with the inode as the new parent. -/
  | rename (dir : Nat) (oldName newName : String)

/-- The inode of an entry, as `rename` looks it up. -/
def childInode (dir : Nat) (name : String) : FsM RawInode := do
  let child ← dirLookup dir name
  getInode child
  raw child

namespace Entry

def exec (recv : Nat) : Entry → FsM Unit
  | create name fileType mode => do let _ ← Ext2.create recv name fileType mode; return
  | mknod name fileType mode rdev => do let _ ← Ext2.mknod recv name fileType mode rdev; return
  | symlink name target => do let _ ← Ext2.symlink recv name target; return
  | mkdir name mode => do let _ ← Ext2.mkdir recv name mode; return
  | link name target => Ext2.link recv name target
  | rename dir oldName newName => Ext2.rename dir oldName recv newName

/-- The other handles of a call. -/
def handles : Entry → List Nat
  | link _ target => [target]
  | rename dir _ _ => [dir]
  | _ => []

/-- No inode can be taken: the mount is read-only, or the bitmaps have no free one. -/
def NoInode (fs : Ext2Fs) : Prop :=
  fs.readOnly = true ∨ fs.Consistent ∧ ∀ n, fs.superBlock.InRange .inode n → fs.Allocated .inode n

/-- A name that no directory record can hold. -/
def BadName (name : String) : Prop := (asBytes name).length = 0 ∨ (asBytes name).length > 255

/-- Something other than the type of the inode stands in the way of the call. -/
def Refused (recv : Nat) (fs : Ext2Fs) : Entry → Prop
  | create _ fileType _ => fileType = .directory ∨ NoInode fs
  | mknod _ fileType _ _ => fileType = .regular ∨ fileType = .directory ∨ fileType = .symlink ∨ NoInode fs
  | symlink _ _ => NoInode fs
  | mkdir _ _ => NoInode fs
  | link name target => BadName name ∨ ∀ r, fs.inodeCache target = some r → r.fmt = EXT2_S_IFDIR
  | rename dir oldName newName => BadName newName ∨
    ∀ r, outcome (childInode dir oldName fs) = .ok r → r.fmt = EXT2_S_IFDIR ∧ recv ≠ EXT2_ROOT_INO

/-- A call that keeps the inode it takes even when it fails. -/
def Keeping : Entry → Prop
  | create _ _ _ => True
  | mknod _ _ _ _ => True
  | symlink _ _ => True
  | _ => False

end Entry

/-! ## Refused calls -/

/-- Disk and counters are the same, and so are the inodes that were in memory. -/
structure Untouched (fs fs' : Ext2Fs) : Prop where
  bare : fs'.bare = fs.bare
  cache : ∀ n r, fs.inodeCache n = some r → fs'.inodeCache n = some r

theorem Untouched.refl (fs : Ext2Fs) : Untouched fs fs := ⟨rfl, fun _ _ h => h⟩

/-- The call returns an error and changes nothing. -/
def Rejected {α : Type} (x : FsM α) (fs : Ext2Fs) : Prop := ∃ e fs', x fs = .error (.err e) fs' ∧ Untouched fs fs'

section Refusal

variable {fs : Ext2Fs} {recv : Nat} {r : RawInode} {α β : Type}

theorem Rejected.bind {x : FsM α} {f : α → FsM β} (h : Rejected x fs) : Rejected (x >>= f) fs := by
  obtain ⟨e, fs', hx, hfs'⟩ := h
  exact ⟨e, fs', bind_error hx, hfs'⟩

theorem rejected_fail (e : FsError) : Rejected (fail e : FsM α) fs := ⟨e, fs, rfl, .refl fs⟩

variable (hr : fs.inodeCache recv = some r) (hne : r.fmt ≠ EXT2_S_IFDIR)
include hr hne

/-- The look-up fails, whatever the name. -/
theorem dirLookup_notDirectory (name : String) : dirLookup recv name fs = .error (.err .notDirectory) fs := by
  have hmode : r.mode &&& 0xF000 ≠ 0x4000 := hne
  have hiter : dirIterator recv fs = .error (.err .notDirectory) fs := by
    rw [dirIterator, bind_ok (raw_eq hr), if_pos hmode]
    rfl
  rw [dirLookup, bind_error hiter]

theorem isOk_lookup (name : String) : isOk (dirLookup recv name) fs = .ok false fs := by
  unfold isOk
  rw [dirLookup_notDirectory hr hne]

theorem attempt_lookup (name : String) : attempt (dirLookup recv name) fs = .ok none fs := by
  unfold attempt
  rw [dirLookup_notDirectory hr hne]

end Refusal

theorem newInode_rejected {fs : Ext2Fs} (h : Entry.NoInode fs) (mode : Nat) : Rejected (newInode mode) fs := by
  apply Rejected.bind
  by_cases hro : fs.readOnly = true
  · refine ⟨.readOnly, fs, ?_, .refl fs⟩
    rw [allocInode, get_bind, if_pos hro]
    rfl
  · obtain ⟨hc, hall⟩ := h.resolve_left hro
    rw [Bool.not_eq_true] at hro
    rcases allocInode_spec hc hro with ⟨n, hn, hfree, -⟩ | ⟨herr, -⟩
    · exact absurd (hall n hn) hfree
    · exact ⟨_, fs, herr, .refl fs⟩

theorem addDirEntry_badName {name : String} (h : Entry.BadName name) (n child : Nat) (ft : Byte) (fs : Ext2Fs) :
    addDirEntry n name child ft fs = .error (.err .invalidInput) fs := by
  have hlen : (asBytes name).length = 0 ∨ (asBytes name).length > 255 := h
  rw [addDirEntry, if_pos hlen]
  rfl

/-- `get_inode` puts an inode into memory, or fails. -/
theorem getInode_untouched {fs : Ext2Fs} (hacc : fs.superBlock.Accepted) (n : Nat) :
    (∃ fs' r, getInode n fs = .ok ⟨⟩ fs' ∧ Untouched fs fs' ∧ fs'.inodeCache n = some r) ∨
      ∃ e, getInode n fs = .error (.err e) fs := by
  cases hcache : fs.inodeCache n with
  | some r =>
    refine .inl ⟨fs, r, ?_, .refl fs, hcache⟩
    rw [getInode, get_bind, hcache]
    rfl
  | none =>
    have hrun : getInode n fs = (readInode n >>= fun r => cacheInode n (some r)) fs := by
      rw [getInode, get_bind, hcache]
    obtain ⟨o, ho, hread, -⟩ := readInode_reads n fs fs ⟨hacc, rfl⟩
    rw [hrun]
    cases o with
    | error e =>
      cases e with
      | panic => exact absurd rfl ho
      | err e => exact .inr ⟨e, bind_error hread⟩
    | ok r =>
      refine .inl ⟨_, r, bind_ok hread, ⟨rfl, fun m r' hm => ?_⟩, Function.update_self ..⟩
      show Function.update fs.inodeCache n (some r) m = some r'
      rw [Function.update_of_ne (fun h => by rw [h, hcache] at hm; cases hm), hm]

/-! ## Every call -/

section Calls

variable {fs : Ext2Fs} {recv : Nat} {r : RawInode} (hr : fs.inodeCache recv = some r) (hne : r.fmt ≠ EXT2_S_IFDIR)
include hr hne

theorem createChild_rejected (h : Entry.NoInode fs) (name : String) (ft : FileType) (mode rdev : Nat) :
    Rejected (createChild recv name ft mode rdev) fs := by
  unfold Rejected
  rw [createChild, bind_ok (isOk_lookup hr hne name)]
  exact (newInode_rejected h _).bind

theorem mkdir_rejected (h : Entry.NoInode fs) (name : String) (mode : Nat) : Rejected (mkdir recv name mode) fs := by
  unfold Rejected
  rw [mkdir, bind_ok (isOk_lookup hr hne name)]
  exact (newInode_rejected h _).bind

theorem link_rejected {target : Nat} {r' : RawInode} {name : String} (htarget : fs.inodeCache target = some r')
    (h : Entry.BadName name ∨ r'.fmt = EXT2_S_IFDIR) : Rejected (link recv name target) fs := by
  unfold Rejected
  rw [link, bind_ok (isOk_lookup hr hne name)]
  simp only [Bool.false_eq_true, if_false]
  rw [bind_ok (raw_eq htarget)]
  split
  · exact rejected_fail _
  · rename_i hdir
    exact ⟨_, fs, bind_error (addDirEntry_badName (h.resolve_right hdir) _ _ _ fs), .refl fs⟩

/-- The walk to the root stops at once: there is no `..` in a file. -/
theorem ancestor_notDirectory {child : Nat} (hchild : recv ≠ child) (hroot : recv ≠ EXT2_ROOT_INO) :
    dirIsAncestorOrSelf child recv fs = .error (.err .notDirectory) fs := by
  have hget : getInode recv fs = .ok ⟨⟩ fs := by
    rw [getInode, get_bind, hr]
    rfl
  rw [dirIsAncestorOrSelf, get_bind, ancestorWalk, if_neg hchild, if_neg hroot, bind_ok hget,
    bind_error (dirLookup_notDirectory hr hne _)]

omit hr hne in
/-- The root has no parent. -/
theorem ancestor_root {child : Nat} (hchild : recv ≠ child) (hroot : recv = EXT2_ROOT_INO) :
    dirIsAncestorOrSelf child recv fs = .ok false fs := by
  rw [dirIsAncestorOrSelf, get_bind, ancestorWalk, if_neg hchild, if_pos hroot]
  rfl

/-- What is left of `rename` when the directory check lets it go on. -/
theorem rename_tail_rejected {dir child : Nat} {oldName newName : String} (h : Entry.BadName newName) (ft : Byte)
    (isDir : Bool) : Rejected (do
      match ← attempt (dirLookup recv newName) with
      | none => moveEntry dir oldName recv newName child ft isDir
      | some existing =>
        if existing = child then return
        else
          replaceTarget recv newName existing
          moveEntry dir oldName recv newName child ft isDir) fs := by
  unfold Rejected
  rw [bind_ok (attempt_lookup hr hne newName)]
  exact ⟨_, fs, bind_error (addDirEntry_badName h _ _ _ fs), .refl fs⟩

theorem rename_rejected (hacc : fs.superBlock.Accepted) {dir : Nat} {rd : RawInode} (hdir : fs.inodeCache dir = some rd)
    {oldName newName : String} (h : Entry.BadName newName ∨
      ∀ r', outcome (childInode dir oldName fs) = .ok r' → r'.fmt = EXT2_S_IFDIR ∧ recv ≠ EXT2_ROOT_INO) :
    Rejected (rename dir oldName recv newName) fs := by
  obtain ⟨o, ho, hlook, -⟩ := dirLookup_reads oldName fs fs ⟨⟨hacc, rfl⟩, rd, rd, hdir, hdir, .refl _⟩
  rcases o with (e | _) | child
  · exact ⟨e, fs, bind_error hlook, .refl fs⟩
  · exact absurd rfl ho
  · rcases getInode_untouched hacc child with ⟨fs', r', hget, hun, hchild⟩ | ⟨e, herr⟩
    · have hout : outcome (childInode dir oldName fs) = .ok r' := by
        rw [childInode, bind_ok hlook, bind_ok hget, raw_eq hchild]
        rfl
      have hr' := hun.cache recv r hr
      suffices hrest : Rejected _ fs' by
        obtain ⟨e, fs'', hx, hun'⟩ := hrest
        refine ⟨e, fs'', ?_, hun'.bare.trans hun.bare, fun n r hn => hun'.cache n r (hun.cache n r hn)⟩
        rw [rename, bind_ok hlook, bind_ok hget, bind_ok (raw_eq hchild)]
        exact hx
      by_cases hisDir : r'.fmt = EXT2_S_IFDIR
      · have hne' : recv ≠ child := by
          rintro rfl
          rw [hr'] at hchild
          injection hchild with hchild
          exact hne (hchild ▸ hisDir)
        simp only [hisDir, decide_true, if_true]
        by_cases hroot : recv = EXT2_ROOT_INO
        · have hbad := h.resolve_right fun h' => (h' r' hout).2 hroot
          unfold Rejected
          rw [bind_ok (ancestor_root hne' hroot)]
          exact rename_tail_rejected hr' hne hbad _ _
        · exact ⟨_, fs', bind_error (ancestor_notDirectory hr' hne hne' hroot), .refl fs'⟩
      · have hbad := h.resolve_right fun h' => hisDir (h' r' hout).1
        simp only [hisDir, decide_false, Bool.false_eq_true, if_false, pure_bind]
        exact rename_tail_rejected hr' hne hbad _ _
    · refine ⟨e, fs, ?_, .refl fs⟩
      rw [rename, bind_ok hlook, bind_error herr]

end Calls

/-! ## Calls that nothing stands in the way of -/

/-- The inode tables lie on the device. -/
def Ext2Fs.TablesPlaced (fs : Ext2Fs) : Prop :=
  ∀ (g : Nat) (bg : BlockGroupDescriptor) (i : Nat), fs.blockGroups[g]? = some bg → i < fs.superBlock.inodesPerGroup →
    bg.inodeTable + i * fs.superBlock.inodeSize / fs.blockSize < fs.deviceBlocks

/-- `init_inode` of an inode number in range. -/
theorem initInode_ok {fs : Ext2Fs} (hacc : fs.superBlock.Accepted) (htables : fs.TablesPlaced) (hG : fs.Geometry) {n : Nat}
    (hn : fs.superBlock.InRange .inode n) (hro : fs.readOnly = false) (mode : Nat) :
    ∃ disk, initInode n mode fs = .ok ⟨⟩ { fs with disk := disk } := by
  obtain ⟨bg, hbg⟩ := hG.exists_group hn
  have hplace := htables _ bg ((n - 1) % fs.superBlock.inodesPerGroup) hbg (Nat.mod_lt _ (hG.perGroup .inode).1)
  have hlocate : locateInode n fs = .ok (_, _) fs := bind_ok (getGroup_eq hbg)
  have hslot : (n - 1) % fs.superBlock.inodesPerGroup * fs.superBlock.inodeSize % fs.blockSize +
      fs.superBlock.inodeSize ≤ fs.blockSize := hacc.slot_le _
  have hpos : n ≠ 0 := Nat.pos_iff_ne_zero.1 hn.1
  rw [initInode, get_bind, if_neg hpos, bind_ok hlocate]
  dsimp only
  rw [bind_ok (readFsBlock_eq hplace), if_neg (Nat.not_lt.2 hslot)]
  exact ⟨_, writeFsBlock_eq hro hplace _⟩

theorem mark_inode_accepted {fs : Ext2Fs} (hacc : fs.superBlock.Accepted) (n : Nat) (v : Bool) :
    (fs.mark .inode n v).superBlock.Accepted := by
  obtain ⟨c, hc⟩ := superBlock_mark fs .inode n v
  rw [hc]
  exact ⟨hacc.1, hacc.2, hacc.3, hacc.4, hacc.5, hacc.6, hacc.7⟩

theorem mark_inode_tablesPlaced {fs : Ext2Fs} (htables : fs.TablesPlaced) (n : Nat) (v : Bool) :
    (fs.mark .inode n v).TablesPlaced := by
  intro g bg i hg hi
  obtain ⟨bg₀, hg₀, htable, -⟩ := group_mark_static hg
  obtain ⟨c, hc⟩ := superBlock_mark fs .inode n v
  rw [Ext2Fs.blockSize, hc, (mark_frame fs .inode n v).1, htable]
  rw [hc] at hi
  exact htables g bg₀ i hg₀ hi

section Taken

variable {fs : Ext2Fs} (hacc : fs.superBlock.Accepted) (htables : fs.TablesPlaced) (hc : fs.Consistent)
include hacc htables hc

/-- **A free inode is taken.** -/
theorem newInode_taken (h : ¬ Entry.NoInode fs) (mode : Nat) :
    ∃ n fs', newInode mode fs = .ok n fs' ∧ fs'.superBlock.freeInodesCount + 1 = fs.superBlock.freeInodesCount := by
  have hro : fs.readOnly = false := by
    rw [← Bool.not_eq_true]
    exact fun hro => h (.inl hro)
  rcases allocInode_spec hc hro with ⟨n, hn, hfree, halloc⟩ | ⟨-, hall⟩
  · obtain ⟨bg, hbg⟩ := hc.exists_group hn
    have hbit : fs.bit .inode (fs.superBlock.groupOf .inode n) (fs.superBlock.bitOf .inode n) = false := by
      rw [← Bool.not_eq_true]
      exact fun hset => hfree ⟨hn, hset⟩
    have hpos : 0 < fs.superBlock.freeInodesCount := Nat.lt_of_lt_of_le
      (hc.free_pos hbg (SuperBlock.bitOf_lt_valid (hc.perGroup .inode).1 hn) hbit) (hc.free_le_total hbg)
    have hcount : (fs.mark .inode n true).superBlock.freeInodesCount = fs.superBlock.freeInodesCount - 1 := by
      rw [Ext2Fs.mark, hbg]
      rfl
    have hro' : (fs.mark .inode n true).readOnly = false := (mark_frame fs .inode n true).2.1.trans hro
    obtain ⟨disk, hinit⟩ := initInode_ok (mark_inode_accepted hacc n true) (mark_inode_tablesPlaced htables n true)
      (mark_geometry hc.toGeometry .inode n true) ((inRange_mark .inode n).2 hn) hro' mode
    have hkeep : onError (initInode n mode) (freeInode n) (fs.mark .inode n true) =
        .ok ⟨⟩ { fs.mark .inode n true with disk := disk } := by rw [onError, hinit]
    refine ⟨n, { fs.mark .inode n true with disk := disk }, ?_, ?_⟩
    · rw [newInode, bind_ok halloc]
      exact bind_ok hkeep
    · show (fs.mark .inode n true).superBlock.freeInodesCount + 1 = _
      omega
  · exact absurd (.inr ⟨hc, hall⟩) h

variable {recv : Nat} {r : RawInode} (hr : fs.inodeCache recv = some r) (hne : r.fmt ≠ EXT2_S_IFDIR)
include hr hne

/-- `create_child` does not give the inode back, whatever happens to the record. -/
theorem createChild_taken (h : ¬ Entry.NoInode fs) (name : String) (ft : FileType) (mode rdev : Nat) :
    ∃ sk, sk.superBlock.freeInodesCount + 1 = fs.superBlock.freeInodesCount ∧
      Framed sk (finalState (createChild recv name ft mode rdev fs)) := by
  obtain ⟨n, fs', hnew, hcount⟩ := newInode_taken hacc htables hc h (fileTypeToMode ft mode)
  refine ⟨fs'.skeleton, hcount, ?_⟩
  rw [createChild, bind_ok (isOk_lookup hr hne name)]
  simp only [Bool.false_eq_true, if_false]
  rw [bind_ok hnew]
  refine (Keeps.bind (addDirEntry_framed _ _ _ _) fun _ => (getInode_framed n).bind fun _ => ?_) fs' rfl |>.2
  refine keeps_ite ((modifyRaw_framed _ _).bind fun _ => (writeInodeToDisk_framed n).bind fun _ => ?_) ?_
  · exact Keeps.pure _
  · exact Keeps.pure _

end Taken

theorem writeSymlinkTarget_framed {sk : Ext2Fs} (n : Nat) (target : String) :
    Keeps Any (Framed sk) (writeSymlinkTarget n target) :=
  keeps_ite ((modifyRaw_framed _ _).bind fun _ => writeInodeToDisk_framed n)
    ((writeAtLocked_framed _ _ _ _).bind fun _ => Keeps.pure _)

/-- What a call leaves alone, a call after it leaves alone too. -/
theorem Framed.bind {sk fs : Ext2Fs} {α β : Type} {x : FsM α} {f : α → FsM β} (h : Framed sk (finalState (x fs)))
    (hf : ∀ a, Keeps Any (Framed sk) (f a)) : Framed sk (finalState ((x >>= f) fs)) := by
  rw [bind_apply]
  cases hx : x fs with
  | error e fs' =>
    rw [hx] at h
    exact h
  | ok a fs' =>
    rw [hx] at h
    exact (hf a fs' h).2

section Main

variable {fs : Ext2Fs} {recv : Nat} {r : RawInode} (hacc : fs.superBlock.Accepted) (hr : fs.inodeCache recv = some r)
  (hne : r.fmt ≠ EXT2_S_IFDIR)
include hacc hr hne

theorem refused_rejected (e : Entry) (hheld : ∀ n ∈ e.handles, ∃ r, fs.inodeCache n = some r) (h : e.Refused recv fs) :
    Rejected (e.exec recv) fs := by
  cases e with
  | create name fileType mode =>
    apply Rejected.bind
    unfold create
    split
    · exact rejected_fail _
    · rename_i hreg
      exact createChild_rejected hr hne (h.resolve_left hreg) _ _ _ _
  | mknod name fileType mode rdev =>
    apply Rejected.bind
    cases fileType with
    | regular => exact rejected_fail _
    | directory => exact rejected_fail _
    | symlink => exact rejected_fail _
    | blockDevice => exact createChild_rejected hr hne (by simpa [Entry.Refused] using h) _ _ _ _
    | charDevice => exact createChild_rejected hr hne (by simpa [Entry.Refused] using h) _ _ _ _
    | fifo => exact createChild_rejected hr hne (by simpa [Entry.Refused] using h) _ _ _ _
    | socket => exact createChild_rejected hr hne (by simpa [Entry.Refused] using h) _ _ _ _
  | symlink name target => exact (createChild_rejected hr hne h _ _ _ _).bind.bind
  | mkdir name mode => exact (mkdir_rejected hr hne h _ _).bind
  | link name target =>
    obtain ⟨r', htarget⟩ := hheld target (List.mem_singleton_self _)
    exact link_rejected hr hne htarget (h.imp_right fun hdir => hdir r' htarget)
  | rename dir oldName newName =>
    obtain ⟨rd, hdir⟩ := hheld dir (List.mem_singleton_self _)
    exact rename_rejected hr hne hacc hdir h

theorem keeping_taken (hc : fs.Consistent) (htables : fs.TablesPlaced) {e : Entry} (hkeep : e.Keeping)
    (h : ¬ e.Refused recv fs) : ∃ sk, sk.superBlock.freeInodesCount + 1 = fs.superBlock.freeInodesCount ∧
      Framed sk (finalState (e.exec recv fs)) := by
  have hchild := createChild_taken hacc htables hc hr hne
  cases e with
  | create name fileType mode =>
    obtain ⟨hreg, hfree⟩ := not_or.1 h
    obtain ⟨sk, hcount, hframe⟩ := hchild hfree name fileType mode 0
    refine ⟨sk, hcount, Framed.bind ?_ fun _ => Keeps.pure _⟩
    rw [create, if_neg hreg]
    exact hframe
  | mknod name fileType mode rdev =>
    simp only [Entry.Refused, not_or] at h
    obtain ⟨sk, hcount, hframe⟩ := hchild h.2.2.2 name fileType mode rdev
    refine ⟨sk, hcount, Framed.bind ?_ fun _ => Keeps.pure _⟩
    unfold mknod
    split
    · exact hframe
    · exact hframe
    · exact hframe
    · exact hframe
    · rename_i hblock hchar hfifo hsocket
      cases fileType with
      | regular => exact absurd rfl h.1
      | directory => exact absurd rfl h.2.1
      | symlink => exact absurd rfl h.2.2.1
      | blockDevice => exact absurd rfl hblock
      | charDevice => exact absurd rfl hchar
      | fifo => exact absurd rfl hfifo
      | socket => exact absurd rfl hsocket
  | symlink name target =>
    obtain ⟨sk, hcount, hframe⟩ := hchild h name .symlink 0o777 0
    exact ⟨sk, hcount, (hframe.bind fun n => (writeSymlinkTarget_framed n target).bind fun _ => Keeps.pure _).bind
      fun _ => Keeps.pure _⟩
  | mkdir name mode => exact hkeep.elim
  | link name target => exact hkeep.elim
  | rename dir oldName newName => exact hkeep.elim

/-- **Names in something that is no directory.** A call that is refused for another reason returns an error and changes
nothing. A `create`, `mknod` or `symlink` that nothing stands in the way of takes an inode and does not give it back. -/
theorem non_directory_entry (e : Entry) (hheld : ∀ n ∈ e.handles, ∃ r, fs.inodeCache n = some r) :
    (e.Refused recv fs → Rejected (e.exec recv) fs) ∧
      (fs.Consistent → fs.TablesPlaced → e.Keeping → ¬ e.Refused recv fs →
        (finalState (e.exec recv fs)).superBlock.freeInodesCount + 1 = fs.superBlock.freeInodesCount) := by
  refine ⟨refused_rejected hacc hr hne e hheld, fun hc htables hkeep h => ?_⟩
  obtain ⟨sk, hcount, hframe⟩ := keeping_taken hacc hr hne hc htables hkeep h
  rw [← hcount, ← hframe]
  rfl

end Main

/-- One group with its metadata and a root directory in blocks 1 to 7; inode 12 is an empty regular file. -/
def fileFs : Ext2Fs where
  deviceBlocks := 16
  superBlock := ⟨16, 16, 8, 4, 1, 0, 8192, 16, 128, 2, 0⟩
  blockGroups := [⟨3, 4, 5, 8, 4, 1⟩]
  readOnly := false
  disk := fun b j =>
    if b = 3 then (if j = 0 then 0x7F else 0) else if b = 4 then (if j = 0 then 0xFF else if j = 1 then 0x0F else 0) else 0
  inodeCache := fun n =>
    if n = 12 then some (RawInode.ofBytes (putLe (putLe (fun _ => 0) 0 2 0x81A4) 26 2 1)) else none

theorem fileFs_group {g : Nat} {bg : BlockGroupDescriptor} (h : fileFs.blockGroups[g]? = some bg) :
    g = 0 ∧ bg = ⟨3, 4, 5, 8, 4, 1⟩ := by
  cases g with
  | zero => exact ⟨rfl, (Option.some.inj h).symm⟩
  | succ g => cases h

theorem fileFs_consistent : fileFs.Consistent where
  groups := rfl
  perGroup := fun k => by cases k <;> decide
  first := by decide
  blocks := by decide
  inodes := by decide
  inodesLow := by decide
  inodesHigh := by decide
  placed := by
    intro k g bg hg _
    obtain ⟨rfl, rfl⟩ := fileFs_group hg
    cases k <;> decide
  distinct := by
    intro k g bg k' g' bg' hg hg' _ _ heq
    obtain ⟨rfl, rfl⟩ := fileFs_group hg
    obtain ⟨rfl, rfl⟩ := fileFs_group hg'
    revert heq
    cases k <;> cases k' <;> decide
  group := by
    intro k g bg hg
    obtain ⟨rfl, rfl⟩ := fileFs_group hg
    cases k <;> decide +kernel
  total := fun k => by cases k <;> rfl

theorem fileFs_accepted : fileFs.superBlock.Accepted :=
  ⟨by decide, by decide, by decide, by decide, by decide, by decide, by decide, 8, by decide⟩

theorem fileFs_tablesPlaced : fileFs.TablesPlaced := by
  intro g bg i hg hi
  obtain ⟨rfl, rfl⟩ := fileFs_group hg
  have hi' : i < 16 := hi
  show 5 + i * 128 / 1024 < 16
  omega

/-- A directory cannot be made by `create`; a file takes an inode. -/
theorem non_directory_entry_file :
    Rejected ((Entry.create "a" .directory 0).exec 12) fileFs ∧
      (finalState ((Entry.create "a" .regular 0).exec 12 fileFs)).superBlock.freeInodesCount + 1 = 4 := by
  have hfmt : (RawInode.ofBytes (putLe (putLe (fun _ => 0) 0 2 0x81A4) 26 2 1)).fmt ≠ EXT2_S_IFDIR := by decide +kernel
  have hfree : ¬ Entry.NoInode fileFs := by
    rintro (hro | ⟨-, hall⟩)
    · cases hro
    · have hbit := (hall 13 ⟨by decide, by decide⟩).2
      revert hbit
      decide +kernel
  refine ⟨(non_directory_entry fileFs_accepted rfl hfmt (.create "a" .directory 0) fun _ h => absurd h List.not_mem_nil).1
    (.inl rfl), ?_⟩
  exact (non_directory_entry fileFs_accepted rfl hfmt (.create "a" .regular 0) fun _ h => absurd h List.not_mem_nil).2
    fileFs_consistent fileFs_tablesPlaced trivial (not_or.2 ⟨by decide, hfree⟩)

/-- Names are entered into a regular file: it is one block longer, and an inode and a block are taken. -/
theorem regular_file_accepts_names :
    (fileFs.inodeCache 12).map (·.fmt) = some EXT2_S_IFREG ∧
    outcome ((Entry.create "a" .regular 0).exec 12 fileFs) = .ok () ∧
    outcome (size 12 fileFs) = .ok 0 ∧
    outcome (size 12 (finalState ((Entry.create "a" .regular 0).exec 12 fileFs))) = .ok 1024 ∧
    outcome ((Entry.symlink "a" "b").exec 12 fileFs) = .ok () ∧
    outcome ((Entry.link "a" 12).exec 12 fileFs) = .ok () := by
  refine ⟨?_, ?_, ?_, ?_, ?_, ?_⟩
  all_goals decide +kernel

end Koros.Ext2
