import Koros.Ext2.NonDirectory
import Koros.Ext2.Slots
import Koros.Ext2.Directory

/-!
# What a directory shows

`lookup` and `list` go through the records of a directory with an iterator that decodes every name. The iterator ends at the
first name that is not UTF-8, and `rmdir` and `rename` take the entries behind it for absent.

- `dirItems_eq`: the iterator returns the entries before the first name that is not UTF-8 (`shown`);
- `Loaded`: what `get_inode` changes; `ancestorWalk_loaded`: the walk up from a directory changes no more;
- `only_empty_removed_iff`: entries are seen, and only empty directories are removed, exactly if all names are UTF-8.
-/
set_option autoImplicit false

namespace Koros.Ext2

open Koros.Lib Xattr

/-! ## The iterator -/

/-- A name that can be decoded. -/
def LiveEntry.IsText (e : LiveEntry) : Prop := ∃ name, fromUtf8 e.name = some name

/-- The items for the entries of a directory. -/
def shown : List LiveEntry → List (Nat × Byte × String)
  | [] => []
  | e :: es =>
    match fromUtf8 e.name with
    | none => []
    | some name => (e.inode, e.fileType, name) :: shown es

section Iterator

variable {Q : Nat → Nat → Nat → Prop} {blockSize len a : Nat} {data : Bytes} {l : List Nat} {es : List LiveEntry}

/-- A record of the directory as the iterator parses it. -/
theorem fromBytes_eq {o : Nat} (h : GoodRecord Q blockSize data o) (hlen : o + recLenAt data o ≤ len) :
    DirEntry.fromBytes (dropBytes data o) (len - o) =
      if inodeAt data o = 0 then none
      else some ⟨inodeAt data o, recLenAt data o, data (o + 7), nameAt data o⟩ := by
  have hheader : 8 ≤ recLenAt data o := h.header
  obtain ⟨hino, hrec, hname, hentry⟩ := record_dropBytes data o
  simp only [entryAt, LiveEntry.mk.injEq] at hentry
  have hunfold : DirEntry.fromBytes (dropBytes data o) (len - o) =
      if len - o < 8 then none
      else if recLenAt (dropBytes data o) 0 < 8 ∨ recLenAt (dropBytes data o) 0 > len - o then none
      else if 8 + nameLenAt (dropBytes data o) 0 > recLenAt (dropBytes data o) 0 then none
      else if inodeAt (dropBytes data o) 0 = 0 then none
      else some ⟨inodeAt (dropBytes data o) 0, recLenAt (dropBytes data o) 0, dropBytes data o 7, nameAt (dropBytes data o) 0⟩ := rfl
  rw [hunfold, hino, hrec, hname, hentry.2.2, if_neg (by omega), if_neg (by omega)]
  by_cases h0 : inodeAt data o = 0
  · rw [if_pos h0, if_pos h0, ite_self]
  · have hfits : 8 + nameLenAt data o ≤ recLenAt data o := h.fits h0
    rw [if_neg h0, if_neg h0, if_neg (by omega)]
    rfl

/-- **The items of the iterator** are the entries before the first name that is not UTF-8. -/
theorem dirItems_eq (h : Tiles (recLenAt data) len a l) (hgood : ∀ o ∈ l, GoodRecord Q blockSize data o) {fuel : Nat}
    (hfuel : len - a ≤ fuel) : dirItems data len fuel a = shown (entries data l) := by
  induction l generalizing a fuel with
  | nil =>
    obtain rfl : a = len := h
    cases fuel with
    | zero => rfl
    | succ fuel =>
      rw [dirItems, if_pos (Nat.le_refl _)]
      rfl
  | cons o l ih =>
    obtain ⟨rfl, hpos, hrest⟩ := h
    have hrec := hgood o (List.mem_cons_self ..)
    have hheader : 8 ≤ recLenAt data o := hrec.header
    have hle := hrest.le
    obtain ⟨fuel, rfl⟩ := Nat.exists_eq_succ_of_ne_zero (show fuel ≠ 0 by omega)
    have hnext := ih hrest (fun x hx => hgood x (List.mem_cons_of_mem _ hx)) (show len - (o + recLenAt data o) ≤ fuel by omega)
    rw [dirItems, if_neg (by omega)]
    dsimp only
    rw [fromBytes_eq hrec hle, entries_cons]
    by_cases h0 : inodeAt data o = 0
    · -- a free record is skipped
      have hskip : leNat (dropBytes data o) 4 2 = recLenAt data o := leNat_dropBytes
      have hheader' : DIR_ENTRY_HEADER_SIZE ≤ recLenAt data o := hrec.header
      rw [if_pos h0, if_pos h0]
      dsimp only
      rw [hskip, if_neg (by omega), if_neg (by omega)]
      exact hnext
    · rw [if_neg h0, if_neg h0]
      simp only [shown, entryAt, List.singleton_append]
      cases fromUtf8 (nameAt data o) with
      | none => rfl
      | some name => exact congrArg _ hnext

/-- All entries are shown if all names are UTF-8. -/
theorem shown_eq (h : ∀ e ∈ es, e.IsText) :
    (shown es).map (fun item => (⟨item.1, item.2.1, asBytes item.2.2⟩ : LiveEntry)) = es := by
  induction es with
  | nil => rfl
  | cons e es ih =>
    obtain ⟨name, hname⟩ := h e (List.mem_cons_self ..)
    simp only [shown, hname, List.map_cons, asBytes_of_fromUtf8 hname]
    rw [ih fun e' he => h e' (List.mem_cons_of_mem _ he)]

/-- A lookup among the items is one among the entries. -/
theorem find_shown (h : ∀ e ∈ es, e.IsText) (name : String) :
    ((shown es).find? (·.2.2 = name)).map (·.1) = (es.find? (·.name = asBytes name)).map (·.inode) := by
  induction es with
  | nil => rfl
  | cons e es ih =>
    obtain ⟨s, hs⟩ := h e (List.mem_cons_self ..)
    have hiff : e.name = asBytes name ↔ s = name := by
      rw [← asBytes_of_fromUtf8 hs]
      exact asBytes_injective.eq_iff
    simp only [shown, hs, List.find?_cons, hiff]
    by_cases hn : s = name
    · simp [hn]
    · simp only [hn, decide_false]
      exact ih fun e' he => h e' (List.mem_cons_of_mem _ he)

end Iterator

/-! ## Inodes that are read into memory -/

/-- Inodes were read from the disk into memory. -/
def Loaded (fs fs' : Ext2Fs) : Prop :=
  ∃ c : Nat → Option RawInode, fs' = { fs with inodeCache := c } ∧
    ∀ m, c m = fs.inodeCache m ∨ fs.inodeCache m = none ∧ fs.IsSlot m ∧ c m = some (fs.diskInode m)

section Loaded

variable {fs fs' fs'' : Ext2Fs} {P : Nat → Prop} {n : Nat} {r : RawInode}

theorem Loaded.refl (fs : Ext2Fs) : Loaded fs fs := ⟨fs.inodeCache, rfl, fun _ => .inl rfl⟩

theorem Loaded.trans (h : Loaded fs fs') (h' : Loaded fs' fs'') : Loaded fs fs'' := by
  obtain ⟨c, rfl, hc⟩ := h
  obtain ⟨c', rfl, hc'⟩ := h'
  refine ⟨c', rfl, fun m => ?_⟩
  rcases hc' m with hm | ⟨hnone, hslot, hm⟩
  · rw [hm]
    exact hc m
  · have hnone : c m = none := hnone
    rcases hc m with hm' | ⟨-, -, hm'⟩
    · exact .inr ⟨hm' ▸ hnone, hslot, hm⟩
    · rw [hnone] at hm'
      cases hm'

theorem Loaded.cache (h : Loaded fs fs') (hr : fs.inodeCache n = some r) : fs'.inodeCache n = some r := by
  obtain ⟨c, rfl, hc⟩ := h
  rcases hc n with hn | ⟨hnone, -⟩
  · exact hn.trans hr
  · rw [hr] at hnone
    cases hnone

theorem Loaded.inode (h : Loaded fs fs') (m : Nat) : fs'.inode m = fs.inode m := by
  obtain ⟨c, rfl, hc⟩ := h
  show (c m).getD (fs.diskInode m) = (fs.inodeCache m).getD (fs.diskInode m)
  rcases hc m with hm | ⟨hnone, -, hm⟩
  · rw [hm]
  · rw [hm, hnone]
    rfl

theorem Loaded.layout (h : Loaded fs fs') : SameLayout fs fs' := by
  obtain ⟨c, rfl, -⟩ := h
  exact ⟨rfl, rfl, ⟨_, _, rfl⟩, rfl⟩

theorem Loaded.disk (h : Loaded fs fs') : fs'.disk = fs.disk := by
  obtain ⟨c, rfl, -⟩ := h
  rfl

theorem Loaded.map (h : Loaded fs fs') : SameMap fs fs' :=
  ⟨h.layout, fun m _ k => by rw [h.inode], fun m _ => by rw [h.inode], fun x _ => by rw [h.disk]⟩

theorem Loaded.sound (h : Loaded fs fs') (hs : fs.Sound P) : fs'.Sound P := by
  refine hs.same h.map (fun m r hm => ?_) (fun b _ => by rw [h.disk]) fun m _ => by rw [h.disk]
  obtain ⟨c, rfl, hc⟩ := h
  rcases hc m with hm' | ⟨-, hslot, -⟩
  · exact hs.cached m r (hm'.symm.trans hm)
  · exact hslot

theorem Loaded.content (h : Loaded fs fs') (n : Nat) : fs'.content n = fs.content n :=
  h.map.content fun q _ => by rw [h.disk]

theorem Loaded.fileSize (h : Loaded fs fs') (n : Nat) : fs'.fileSize n = fs.fileSize n := by
  rw [Ext2Fs.fileSize, h.inode, h.layout.hasLargeFile]
  rfl

/-- **`get_inode`** reads an inode into memory. -/
theorem getInode_loaded {u : PUnit} (h : getInode n fs = .ok u fs') :
    Loaded fs fs' ∧ fs'.inodeCache n = some (fs.inode n) := by
  rcases getInode_ok h with ⟨rfl, hne⟩ | ⟨hnone, hslot, rfl⟩
  · refine ⟨.refl _, ?_⟩
    obtain ⟨r, hr⟩ := Option.ne_none_iff_exists'.1 hne
    rw [hr, inode_of_cached hr]
  · refine ⟨⟨_, rfl, fun m => ?_⟩, ?_⟩
    · by_cases hm : m = n
      · subst hm
        exact .inr ⟨hnone, hslot, Function.update_self ..⟩
      · exact .inl (Function.update_of_ne hm ..)
    · rw [Ext2Fs.inode, hnone]
      exact Function.update_self ..

theorem getInode_runs (hs : fs.Sound P) (hn : fs.IsSlot n) : ∃ fs', getInode n fs = .ok ⟨⟩ fs' := by
  rw [getInode, get_bind]
  cases hc : fs.inodeCache n with
  | some r => exact ⟨fs, rfl⟩
  | none =>
    have hread : readInode n fs = .ok (fs.diskInode n) fs := by
      refine (readInode_iff hs.accepted).2 ⟨hn, fun b off hplace => ?_, rfl⟩
      obtain ⟨b', off', hplace', htable, -⟩ := tablePlace_spec hs.toPlaced hn
      rw [hplace, Option.some.injEq, Prod.mk.injEq] at hplace'
      rw [hplace'.1]
      exact (hs.tables b' htable).1
    exact ⟨_, bind_ok hread⟩

/-- A directory in memory shows the same. -/
theorem Loaded.lookup (h : Loaded fs fs') (hacc : fs.superBlock.Accepted) {name : String} {child : Nat}
    (hrun : dirLookup n name fs = .ok child fs) : dirLookup n name fs' = .ok child fs' := by
  have hr : ∃ r, fs.inodeCache n = some r := by
    obtain ⟨items, fs₁, hiter, -⟩ := bind_eq_ok hrun
    obtain ⟨r, hr, -⟩ := raw_bind_ok hiter
    exact ⟨r, hr⟩
  obtain ⟨r, hr⟩ := hr
  have hpeer : Peer n fs fs' := by
    refine ⟨⟨hacc, ?_⟩, r, r, hr, h.cache hr, .refl r⟩
    obtain ⟨c, rfl, -⟩ := h
    rfl
  obtain ⟨o, -, ho, ho'⟩ := dirLookup_reads name fs fs' hpeer
  rw [hrun] at ho
  cases o with
  | error e => cases ho
  | ok a =>
    cases ho
    exact ho'

/-- A lookup changes nothing. -/
theorem dirLookup_ok {name : String} {child : Nat} (h : dirLookup n name fs = .ok child fs') : fs' = fs := by
  obtain ⟨o, -, ho, -⟩ := dirLookup_still n name fs fs rfl
  rw [h] at ho
  cases o with
  | error e => cases ho
  | ok a =>
    cases ho
    rfl

/-- **The walk up from a directory** only reads inodes into memory. -/
theorem ancestorWalk_loaded {ancestor : Nat} {found : Bool} (fuel cur : Nat)
    (h : ancestorWalk ancestor fuel cur fs = .ok found fs') : Loaded fs fs' := by
  induction fuel generalizing cur fs with
  | zero =>
    obtain ⟨-, rfl⟩ := pure_eq_ok h
    exact .refl _
  | succ fuel ih =>
    rw [ancestorWalk] at h
    split at h
    · obtain ⟨-, rfl⟩ := pure_eq_ok h
      exact .refl _
    split at h
    · obtain ⟨-, rfl⟩ := pure_eq_ok h
      exact .refl _
    obtain ⟨u, fs₁, hget, h⟩ := bind_eq_ok h
    obtain ⟨hload, -⟩ := getInode_loaded hget
    obtain ⟨parent, fs₂, hlookup, hrest⟩ := bind_eq_ok h
    rw [dirLookup_ok hlookup] at hrest
    split at hrest
    · obtain ⟨-, rfl⟩ := pure_eq_ok hrest
      exact hload
    · exact hload.trans (ih parent hrest)

end Loaded

/-! ## What is seen and removed -/

/-- No entry but the two that every directory has. -/
def OnlyDots (es : List LiveEntry) : Prop := ∀ e ∈ es, e.name = asBytes "." ∨ e.name = asBytes ".."

/-- What the entries `es` of the directory `n` ask of the calls: its handle lists all of them and finds each name, and only if
there is none but `.` and `..` the directory is removed, by `rmdir` or as the target of `rename`. -/
structure Heeded (fs : Ext2Fs) (n : Nat) (es : List LiveEntry) : Prop where
  list : ∃ fs₁ items, getInode n fs = .ok ⟨⟩ fs₁ ∧ dirList n fs₁ = .ok items fs₁ ∧
    ∀ e ∈ es, ∃ item ∈ items, asBytes item.1 = e.name ∧ item.2 = e.inode
  lookup : ∀ u fs₁, getInode n fs = .ok u fs₁ → ∀ name e, es.find? (·.name = asBytes name) = some e →
    dirLookup n name fs₁ = .ok e.inode fs₁
  rmdir : ∀ dir name u fs', dirLookup dir name fs = .ok n fs → rmdirLocked dir name fs = .ok u fs' → OnlyDots es
  rename : ∀ dir oldName newDir newName u fs', dirLookup newDir newName fs = .ok n fs →
    dirLookup dir oldName fs ≠ .ok n fs → rename dir oldName newDir newName fs = .ok u fs' → OnlyDots es

section Seen

variable {fs fs' : Ext2Fs} {P : Nat → Prop} {n : Nat} {r : RawInode} {l : List Nat} {Q : Nat → Nat → Nat → Prop}
  {es : List LiveEntry}

/-- **The iterator** over a directory in memory. -/
theorem dirIterator_eq (hs : fs.Sound P) (hr : fs.inodeCache n = some r) (hdir : r.fmt = EXT2_S_IFDIR)
    (hwf : WellFormed Q fs.blockSize (fs.fileSize n) (fs.content n) l) :
    dirIterator n fs = .ok (shown (entries (fs.content n) l)) fs := by
  obtain ⟨data, hread, hdata⟩ := hwf.dirData hs hr hdir
  obtain ⟨hwf', hentries⟩ := hwf.congr hdata
  have hmode : ¬ r.mode &&& 0xF000 ≠ 0x4000 := not_not.2 hdir
  rw [dirIterator, bind_ok (raw_eq hr), if_neg hmode, bind_ok hread, ← hentries,
    ← dirItems_eq hwf'.tiles hwf'.good (Nat.sub_le _ 0)]
  rfl

theorem onlyDots_of_isEmptyDir (h : ∀ e ∈ es, e.IsText)
    (hempty : isEmptyDir ((shown es).map fun item => (item.2.2, item.1)) = true) : OnlyDots es := by
  intro e he
  rw [← shown_eq h, List.mem_map] at he
  obtain ⟨item, hitem, rfl⟩ := he
  have hname := List.all_eq_true.1 hempty _ (List.mem_map_of_mem hitem)
  rcases of_decide_eq_true hname with hname | hname
  · exact .inl (congrArg asBytes hname)
  · exact .inr (congrArg asBytes hname)

/-- What a directory is that some call removes. -/
structure DirImageOf (Q : Nat → Nat → Nat → Prop) (n : Nat) (l : List Nat) (fs : Ext2Fs) : Prop where
  isDir : (fs.inode n).fmt = EXT2_S_IFDIR
  image : WellFormed Q fs.blockSize (fs.fileSize n) (fs.content n) l

theorem Loaded.image (h : Loaded fs fs') (hd : DirImageOf Q n l fs) : DirImageOf Q n l fs' := by
  refine ⟨by rw [h.inode]; exact hd.isDir, ?_⟩
  rw [h.layout.blockSize, h.fileSize, h.content]
  exact hd.image

theorem dirList_eq (hs : fs.Sound P) (hd : DirImageOf Q n l fs) (hr : fs.inodeCache n = some (fs.inode n)) :
    dirList n fs = .ok ((shown (entries (fs.content n) l)).map fun item => (item.2.2, item.1)) fs :=
  bind_ok (dirIterator_eq hs hr hd.isDir hd.image)

/-- A directory whose list is empty has no entries. -/
theorem onlyDots_of_list (hs : fs.Sound P) (hd : DirImageOf Q n l fs) (htext : ∀ e ∈ entries (fs.content n) l, e.IsText)
    (hr : fs.inodeCache n = some (fs.inode n)) {items : List (String × Nat)} (hlist : dirList n fs = .ok items fs')
    (hempty : ¬ (!isEmptyDir items) = true) : OnlyDots (entries (fs.content n) l) := by
  rw [dirList_eq hs hd hr] at hlist
  cases hlist
  exact onlyDots_of_isEmptyDir htext (by simpa using hempty)

theorem rmdirLocked_onlyDots (hs : fs.Sound P) (hd : DirImageOf Q n l fs)
    (htext : ∀ e ∈ entries (fs.content n) l, e.IsText) {dir : Nat} {name : String} {u : PUnit}
    (hlookup : dirLookup dir name fs = .ok n fs) (hrun : rmdirLocked dir name fs = .ok u fs') :
    OnlyDots (entries (fs.content n) l) := by
  obtain ⟨-, hrun⟩ := ite_fail_ok hrun
  rw [bind_ok hlookup] at hrun
  obtain ⟨v, fs₁, hget, hrun⟩ := bind_eq_ok hrun
  obtain ⟨hload, hr⟩ := getInode_loaded hget
  obtain ⟨r, -, hrun⟩ := raw_bind_ok hrun
  obtain ⟨-, hrun⟩ := ite_fail_ok hrun
  obtain ⟨items, fs₂, hlist, hrun⟩ := bind_eq_ok hrun
  obtain ⟨hempty, -⟩ := ite_fail_ok hrun
  rw [← hload.content n] at htext ⊢
  exact onlyDots_of_list (hload.sound hs) (hload.image hd) htext (by rw [hload.inode]; exact hr) hlist hempty

theorem replaceTarget_onlyDots (hs : fs.Sound P) (hd : DirImageOf Q n l fs)
    (htext : ∀ e ∈ entries (fs.content n) l, e.IsText) {newDir : Nat} {newName : String} {u : PUnit}
    (hrun : replaceTarget newDir newName n fs = .ok u fs') : OnlyDots (entries (fs.content n) l) := by
  obtain ⟨v, fs₁, hget, hrun⟩ := bind_eq_ok hrun
  obtain ⟨hload, hr⟩ := getInode_loaded hget
  obtain ⟨r, hr', hrun⟩ := raw_bind_ok hrun
  obtain rfl : r = fs.inode n := Option.some.inj (hr'.symm.trans hr)
  rw [if_pos hd.isDir] at hrun
  obtain ⟨items, fs₂, hlist, hrun⟩ := bind_eq_ok hrun
  obtain ⟨hempty, -⟩ := ite_fail_ok hrun
  rw [← hload.content n] at htext ⊢
  exact onlyDots_of_list (hload.sound hs) (hload.image hd) htext (by rw [hload.inode]; exact hr) hlist hempty

/-- What follows the check for cycles: the target is looked up, and replaced. -/
theorem renameTarget_onlyDots (hs : fs.Sound P) (hd : DirImageOf Q n l fs)
    (htext : ∀ e ∈ entries (fs.content n) l, e.IsText) {dir newDir child : Nat} {oldName newName : String} {ft : Byte}
    {isDir cycle : Bool} {u : PUnit} (hlookup : dirLookup newDir newName fs = .ok n fs) (hne : n ≠ child) {fs₃ : Ext2Fs}
    (hload : Loaded fs fs₃) (hrun : (if cycle = true then fail .invalidInput else do
      match ← attempt (dirLookup newDir newName) with
      | none => moveEntry dir oldName newDir newName child ft isDir
      | some existing =>
        if existing = child then return
        else
          replaceTarget newDir newName existing
          moveEntry dir oldName newDir newName child ft isDir : FsM Unit) fs₃ = .ok u fs') :
    OnlyDots (entries (fs.content n) l) := by
  obtain ⟨-, hrun⟩ := ite_fail_ok hrun
  have hattempt : attempt (dirLookup newDir newName) fs₃ = .ok (some n) fs₃ := by
    rw [attempt, hload.lookup hs.accepted hlookup]
  rw [bind_ok hattempt] at hrun
  dsimp only at hrun
  rw [if_neg hne] at hrun
  obtain ⟨w, fs₄, hreplace, -⟩ := bind_eq_ok hrun
  rw [← hload.content n] at htext ⊢
  exact replaceTarget_onlyDots (hload.sound hs) (hload.image hd) htext hreplace

theorem rename_onlyDots (hs : fs.Sound P) (hd : DirImageOf Q n l fs)
    (htext : ∀ e ∈ entries (fs.content n) l, e.IsText) {dir newDir : Nat} {oldName newName : String} {u : PUnit}
    (hlookup : dirLookup newDir newName fs = .ok n fs) (hother : dirLookup dir oldName fs ≠ .ok n fs)
    (hrun : Ext2.rename dir oldName newDir newName fs = .ok u fs') : OnlyDots (entries (fs.content n) l) := by
  obtain ⟨child, fs₁, hchild, hrun⟩ := bind_eq_ok hrun
  have hfs₁ : fs₁ = fs := dirLookup_ok hchild
  rw [hfs₁] at hchild hrun
  have hne : n ≠ child := fun h => hother (h ▸ hchild)
  obtain ⟨v, fs₂, hget, hrun⟩ := bind_eq_ok hrun
  obtain ⟨hload, -⟩ := getInode_loaded hget
  obtain ⟨r, -, hrun⟩ := raw_bind_ok hrun
  -- up to the lookup of the target, inodes were read into memory and nothing else happened
  dsimp only at hrun
  split at hrun
  · obtain ⟨cycle, fs₃, hcycle, hrun⟩ := bind_eq_ok hrun
    rw [dirIsAncestorOrSelf, get_bind] at hcycle
    exact renameTarget_onlyDots hs hd htext hlookup hne (hload.trans (ancestorWalk_loaded _ _ hcycle)) hrun
  · rw [pure_bind] at hrun
    exact renameTarget_onlyDots hs hd htext hlookup hne hload hrun

/-- **Entries are heeded exactly if all names are UTF-8.** -/
theorem only_empty_removed_iff (hs : fs.Sound P) (hn : fs.IsSlot n) (hdir : (fs.inode n).fmt = EXT2_S_IFDIR)
    (hwf : WellFormed (fun _ _ _ => True) fs.blockSize (fs.fileSize n) (fs.content n) l) :
    Heeded fs n (entries (fs.content n) l) ↔ ∀ e ∈ entries (fs.content n) l, ∃ name, fromUtf8 e.name = some name := by
  have hd : DirImageOf (fun _ _ _ => True) n l fs := ⟨hdir, hwf⟩
  obtain ⟨fs₁, hget⟩ := getInode_runs hs hn
  obtain ⟨hload, hr⟩ := getInode_loaded hget
  have hr₁ : fs₁.inodeCache n = some (fs₁.inode n) := by rw [hload.inode]; exact hr
  have hlist := dirList_eq (hload.sound hs) (hload.image hd) hr₁
  rw [hload.content] at hlist
  constructor
  · rintro ⟨⟨fs₂, items, hget₂, hlist₂, hall⟩, -⟩ e he
    rw [hget] at hget₂
    cases hget₂
    rw [hlist] at hlist₂
    cases hlist₂
    obtain ⟨item, hitem, hname, -⟩ := hall e he
    exact ⟨item.1, by rw [← hname, fromUtf8_asBytes]⟩
  · intro htext
    refine ⟨⟨fs₁, _, hget, hlist, fun e he => ?_⟩, ?_, fun dir name u fs' hlookup hrun =>
      rmdirLocked_onlyDots hs hd htext hlookup hrun, fun dir oldName newDir newName u fs' hlookup hother hrun =>
      rename_onlyDots hs hd htext hlookup hother hrun⟩
    · have hmem := he
      rw [← shown_eq htext, List.mem_map] at hmem
      obtain ⟨item, hitem, rfl⟩ := hmem
      exact ⟨_, List.mem_map_of_mem hitem, rfl, rfl⟩
    · intro u fs₂ hget₂ name e hfind
      rw [hget] at hget₂
      cases hget₂
      have hiter := dirIterator_eq (hload.sound hs) hr₁ (hload.image hd).isDir (hload.image hd).image
      rw [hload.content] at hiter
      have hfound := find_shown htext name
      rw [hfind, Option.map_some, Option.map_eq_some_iff] at hfound
      obtain ⟨item, hitem, hino⟩ := hfound
      rw [dirLookup, bind_ok hiter, hitem, ← hino]
      rfl

end Seen

/-! ## A name in another encoding -/

/-- The image with two empty directories. -/
def twoDirs : Ext2Fs := (dirImage false).setInode 2 (some (emptyDir false))

/-- The entries of the second directory. -/
def dotCalls : List DirCall := [.add "." 2 TYPE_DIRECTORY, .add ".." 1 TYPE_DIRECTORY, .add "x" 3 TYPE_REGULAR]

/-- The second directory becomes an entry of the first one, and the name of its last entry is changed. -/
def nameByte (b : Byte) : FsM Nat := do
  addDirEntry 1 "d" 2 TYPE_DIRECTORY
  writeAtLocked 2 32 (fun _ => b) 1

theorem twoDirs_state : DirState (fun _ => False) 1 twoDirs [] ∧ DirState (fun _ => False) 2 twoDirs [] := by
  have h := dirImage_state false
  have hn : (dirImage false).IsSlot 2 := by decide
  have hs : twoDirs.Sound fun _ => False := by
    refine h.sound.setInode_bare hn (fun i m hi => ?_) fun i m hi => emptyDir_get false hi
    rw [dirImage, inode_setInode_of_ne (by decide)]
    exact fileImage_get (by decide) (by omega)
  have hc : twoDirs.Consistent := consistent_withCache h.consistent _
  exact ⟨dirState_empty hs hc rfl, dirState_empty hs hc rfl⟩

theorem nameByte_sound {b : Byte} {count : Nat} {fs fs' : Ext2Fs} (hcalls : runs (dirStep 2) twoDirs dotCalls = some fs)
    (hrun : nameByte b fs = .ok count fs') :
    (fs'.Sound fun _ => False) ∧ fs'.IsSlot 2 ∧ (fs'.inode 2).fmt = EXT2_S_IFDIR ∧ fs'.blockSize = 1024 := by
  obtain ⟨⟨l, hstate⟩, hstep⟩ := history_state (by decide) twoDirs_state.2 (by decide +kernel) hcalls
  have hfirst := twoDirs_state.1.frame hstep (by decide) hstate.sound hstate.consistent
  have hbs : fs.blockSize < 2 ^ 16 := by
    rw [hstep.layout.blockSize]
    decide
  obtain ⟨u, fs₁, hadd, hwrite⟩ := bind_eq_ok hrun
  obtain ⟨l₁, hstate₁, hstep₁, -⟩ := (addDirEntry_ends hfirst (by decide) (by decide) TYPE_DIRECTORY
    (hfirst.insertable hbs (hfirst.hasPlace hbs "d"))).of_ok hadd
  obtain ⟨r, hr, hdir⟩ := (hstate.frame hstep₁ (by decide) hstate₁.sound hstate₁.consistent).dir
  obtain ⟨⟨k, fs₂, hwrote, hkept⟩, -, -, r', hr', hfmt⟩ := writeAtLocked_ok hstate₁.sound hr (.inr hdir) (by decide)
    (by have := blockSize_pos fs₁; omega) hwrite
  have hstep₂ := (hstep.layout.trans hstep₁.layout).trans (hwrote.extended.layout.trans hkept.step.layout)
  refine ⟨hkept.sound, hkept.sound.cached 2 r' hr', ?_, ?_⟩
  · rw [inode_of_cached hr', hfmt, hdir]
  · rw [hstep₂.blockSize]
    decide

/-- The records of the second directory, and what its parent finds. -/
def HoldsByte (b : Byte) (fs : Ext2Fs) : Prop :=
  fs.fileSize 2 = 1024 ∧ recLenAt (fs.content 2) 0 = 12 ∧ recLenAt (fs.content 2) 12 = 12 ∧ recLenAt (fs.content 2) 24 = 1000 ∧
    (∀ o ∈ [0, 12, 24], 8 + nameLenAt (fs.content 2) o ≤ recLenAt (fs.content 2) o) ∧
    (entries (fs.content 2) [0, 12, 24]).map (·.name) = [[0x2E], [0x2E, 0x2E], [b]] ∧
    endsIn (fun child _ => decide (child = 2)) (dirLookup 1 "d" fs) = true

instance HoldsByte.decidable (b : Byte) (fs : Ext2Fs) : Decidable (HoldsByte b fs) := inferInstanceAs (Decidable (_ ∧ _))

theorem HoldsByte.wellFormed {b : Byte} {fs : Ext2Fs} (h : HoldsByte b fs) (hbs : fs.blockSize = 1024) :
    WellFormed (fun _ _ _ => True) fs.blockSize (fs.fileSize 2) (fs.content 2) [0, 12, 24] := by
  obtain ⟨hsize, h0, h12, h24, hfits, -⟩ := h
  rw [hbs, hsize]
  refine ⟨Nat.dvd_refl _, by simp [h0, h12, h24], fun o ho => ⟨?_, ?_, fun _ => hfits o ho, trivial⟩⟩
  · exact Nat.le_trans (Nat.le_add_right ..) (hfits o ho)
  · simp only [List.mem_cons, List.not_mem_nil, or_false] at ho
    rcases ho with rfl | rfl | rfl
    · rw [h0]
    · rw [h12]
    · rw [h24]

/-- The image with the byte `b` for a name. -/
theorem nameByte_image {b : Byte} {p : Ext2Fs → Bool}
    (heval : ((runs (dirStep 2) twoDirs dotCalls).any fun fs =>
      endsIn (fun _ fs' => decide (HoldsByte b fs') && p fs') (nameByte b fs)) = true) :
    ∃ fs, (fs.Sound fun _ => False) ∧ fs.IsSlot 2 ∧ (fs.inode 2).fmt = EXT2_S_IFDIR ∧
      WellFormed (fun _ _ _ => True) fs.blockSize (fs.fileSize 2) (fs.content 2) [0, 12, 24] ∧ HoldsByte b fs ∧
      dirLookup 1 "d" fs = .ok 2 fs ∧ p fs = true := by
  obtain ⟨fs, hcalls, hends⟩ := (Option.any_eq_true _ _).1 heval
  obtain ⟨count, fs', hrun, hp⟩ := exists_of_endsIn _ _ hends
  obtain ⟨hholds, hp⟩ := Bool.and_eq_true_iff.1 hp
  have hholds := of_decide_eq_true hholds
  obtain ⟨hs, hn, hdir, hbs⟩ := nameByte_sound hcalls hrun
  obtain ⟨child, fs₁, hlookup, hchild⟩ := exists_of_endsIn _ _ hholds.2.2.2.2.2.2
  obtain rfl := of_decide_eq_true hchild
  obtain rfl := dirLookup_ok hlookup
  exact ⟨_, hs, hn, hdir, hholds.wellFormed hbs, hholds, hlookup, hp⟩

/-- All three names are UTF-8. -/
theorem only_empty_removed_twoDirs : ∃ fs : Ext2Fs, (entries (fs.content 2) [0, 12, 24]).map (·.name) = [[0x2E], [0x2E, 0x2E], [0x78]] ∧
    Heeded fs 2 (entries (fs.content 2) [0, 12, 24]) := by
  obtain ⟨fs, hs, hn, hdir, hwf, hholds, -⟩ := nameByte_image (b := 0x78) (p := fun _ => true) (by decide +kernel)
  have hnames := hholds.2.2.2.2.2.1
  refine ⟨fs, hnames, (only_empty_removed_iff hs hn hdir hwf).2 fun e he => ?_⟩
  have hmem : e.name ∈ ([[0x2E], [0x2E, 0x2E], [0x78]] : List (List Byte)) := hnames ▸ List.mem_map_of_mem he
  simp only [List.mem_cons, List.not_mem_nil, or_false] at hmem
  rcases hmem with h | h | h
  · exact ⟨".", h ▸ fromUtf8_asBytes "."⟩
  · exact ⟨"..", h ▸ fromUtf8_asBytes ".."⟩
  · exact ⟨"x", h ▸ fromUtf8_asBytes "x"⟩

/-- A directory with an entry whose name is not UTF-8 is removed. -/
theorem rmdir_loses_entry : ∃ fs fs' : Ext2Fs, (fs.Sound fun _ => False) ∧ (fs.inode 2).fmt = EXT2_S_IFDIR ∧
    WellFormed (fun _ _ _ => True) fs.blockSize (fs.fileSize 2) (fs.content 2) [0, 12, 24] ∧
    dirLookup 1 "d" fs = .ok 2 fs ∧ rmdirLocked 1 "d" fs = .ok ⟨⟩ fs' ∧ ¬ OnlyDots (entries (fs.content 2) [0, 12, 24]) := by
  obtain ⟨fs, hs, -, hdir, hwf, hholds, hlookup, hp⟩ := nameByte_image (b := 0xFF)
    (p := fun fs => succeeds (rmdirLocked 1 "d" fs)) (by decide +kernel)
  obtain ⟨u, fs', hrun⟩ := exists_of_succeeds _ _ hp
  refine ⟨fs, fs', hs, hdir, hwf, hlookup, hrun, fun honly => ?_⟩
  have hmem : ([0xFF] : List Byte) ∈ (entries (fs.content 2) [0, 12, 24]).map (·.name) := by
    rw [hholds.2.2.2.2.2.1]
    simp
  obtain ⟨e, he, hname⟩ := List.mem_map.1 hmem
  have := honly e he
  rw [hname] at this
  revert this
  decide +kernel

end Koros.Ext2
