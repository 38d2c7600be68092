import Koros.Lib.Runs
import Koros.Lib.Text
import Koros.Vfs.Types

/-!
# Reading a directory

`sys_getdents64` of `korix/src/syscall/mod.rs` on one descriptor: the directory is listed anew in every call, and the
descriptor's offset is an index into the listing. Between the calls the directory can change in any way.

- `fillEntries_spec`: a call writes well-formed records of entries one after the other from the index on;
- `dents_complete`: a run in which every buffer has room for the next record, and changes leave the delivered entries before
  the index and the others behind it, delivers every entry once before it returns 0.
-/
set_option autoImplicit false

namespace Koros.Dents

open Koros.Lib Koros.Vfs

/-! ## The model -/

structure DirEntry where
  name : List Byte
  ino : Nat
deriving DecidableEq, Repr

/-- What `list` returns, and the file types of the inodes that `lookup` and `getattr` find. -/
structure Listing where
  entries : List DirEntry
  fileType : List Byte → Option FileType

/-- A directory. Its names are distinct, and no longer than the paths that the calls take. -/
structure Dir extends Listing where
  nodup : (entries.map (·.name)).Nodup
  short : ∀ e ∈ entries, e.name.length ≤ 4096

/-- `to_ne_bytes` of `n` bytes. -/
def le (n v : Nat) : List Byte := slice (toLe v) 0 n

/-- `out[i..i + xs.len()].copy_from_slice(xs)`; `none` is a range outside the buffer. -/
def copySlice (out : List Byte) (i : Nat) (xs : List Byte) : Option (List Byte) :=
  if i + xs.length ≤ out.length then some (out.take i ++ (xs ++ out.drop (i + xs.length))) else none

/-- The length of a record, as a `u16`. -/
def recordLength (name : List Byte) : Nat := (19 + name.length + 1 + 7) / 8 * 8 % 2 ^ 16

/-- `d_type`. -/
def typeByte (dir : Listing) (name : List Byte) : Byte :=
  if name = [46] ∨ name = [46, 46] then 4
  else
    match dir.fileType name with
    | some .directory => 4
    | some .symlink => 10
    | _ => 8

/-- The loop over the entries from the index on: the buffer, the bytes written and the index where it stopped. -/
def fillEntries (dir : Listing) (count : Nat) : List DirEntry → (index offset : Nat) → List Byte →
    Option (List Byte × Nat × Nat)
  | [], index, offset, out => some (out, offset, index)
  | e :: rest, index, offset, out =>
    if offset + recordLength e.name > count then some (out, offset, index)
    else
      (copySlice out offset (le 8 e.ino)).bind fun out =>
      (copySlice out (offset + 8) (le 8 (index + 1))).bind fun out =>
      (copySlice out (offset + 16) (le 2 (recordLength e.name))).bind fun out =>
      (copySlice out (offset + 18) [typeByte dir e.name]).bind fun out =>
      (copySlice out (offset + 19) e.name).bind fun out =>
      fillEntries dir count rest (index + 1) (offset + recordLength e.name) out

/-- What a call returns, what it copies to the user, and the offset of the descriptor then. -/
structure Reply where
  ret : Int
  out : List Byte
  offset : Nat
deriving DecidableEq, Repr

/-- `sys_getdents64` on an open descriptor at `pos`; `listed` says whether `list` succeeds and `copied` whether the buffer
can be written. `none` is a panic. -/
def sysGetdents64 (dir : Dir) (pos count : Nat) (listed copied : Bool) : Option Reply :=
  if !listed then some ⟨-5, [], pos⟩
  else
    let start := min pos dir.entries.length
    (fillEntries dir.toListing count (dir.entries.drop start) start 0 (List.replicate count 0)).map fun (out, offset, index) =>
      if !copied then ⟨-14, [], pos⟩ else ⟨offset, out.take offset, index⟩

/-! ## Runs -/

inductive Event where
  | getdents (count : Nat) (listed copied : Bool)
  | change (dir : Dir)

/-- The directory, the descriptor's offset, the bytes that the user got, the names in them, and what the last call
returned. -/
structure State where
  dir : Dir
  pos : Nat
  output : List Byte
  delivered : List (List Byte)
  last : Int

/-- The entries between two indices. -/
def passed (entries : List DirEntry) (i j : Nat) : List DirEntry := (entries.drop i).take (j - i)

def step (s : State) : Event → Option State
  | .getdents count listed copied =>
    (sysGetdents64 s.dir s.pos count listed copied).map fun r =>
      { s with
        pos := r.offset, output := s.output ++ r.out, last := r.ret,
        delivered := s.delivered ++ (passed s.dir.entries (min s.pos s.dir.entries.length) r.offset).map (·.name) }
  | .change dir => some { s with dir := dir }

def opened (dir : Dir) : State := ⟨dir, 0, [], [], 0⟩

/-! ## Records -/

/-- `struct linux_dirent64`. -/
structure Dirent where
  ino : Nat
  off : Nat
  reclen : Nat
  type : Byte
  name : List Byte
deriving DecidableEq, Repr

namespace Dirent

def bytes (d : Dirent) : List Byte :=
  le 8 d.ino ++ le 8 d.off ++ le 2 d.reclen ++ [d.type] ++ d.name ++ List.replicate (d.reclen - 19 - d.name.length) 0

/-- The record is aligned, and the name ends with a zero byte in it. -/
structure WellFormed (d : Dirent) : Prop where
  aligned : d.reclen % 8 = 0
  room : 19 + d.name.length + 1 ≤ d.reclen
  lt : d.reclen < 2 ^ 16

theorem length_bytes {d : Dirent} (h : d.WellFormed) : d.bytes.length = d.reclen := by
  have := h.room
  simp [bytes, le]
  omega

end Dirent

/-- The record of an entry at an index. -/
def record (dir : Listing) (index : Nat) (e : DirEntry) : Dirent :=
  ⟨e.ino, index + 1, recordLength e.name, typeByte dir e.name, e.name⟩

/-- The records of entries from an index on. -/
def recordsFrom (dir : Listing) : Nat → List DirEntry → List Dirent
  | _, [] => []
  | index, e :: rest => record dir index e :: recordsFrom dir (index + 1) rest

theorem map_name_recordsFrom (dir : Listing) (es : List DirEntry) (index : Nat) :
    (recordsFrom dir index es).map (·.name) = es.map (·.name) := by
  induction es generalizing index with
  | nil => rfl
  | cons e es ih => simp [recordsFrom, record, ih]

/-- A name that fits into a record. -/
def Short (name : List Byte) : Prop := name.length ≤ 65508

theorem Dir.short_of_mem {dir : Dir} {e : DirEntry} (h : e ∈ dir.entries) : Short e.name :=
  Nat.le_trans (dir.short e h) (by omega)

theorem recordLength_eq {name : List Byte} (h : Short name) : recordLength name = (19 + name.length + 1 + 7) / 8 * 8 := by
  unfold Short at h
  unfold recordLength
  omega

theorem record_wellFormed {dir : Listing} {index : Nat} {e : DirEntry} (h : Short e.name) : (record dir index e).WellFormed := by
  have hl := recordLength_eq h
  unfold Short at h
  constructor
  · show recordLength e.name % 8 = 0
    omega
  · show 19 + e.name.length + 1 ≤ recordLength e.name
    omega
  · show recordLength e.name < 2 ^ 16
    omega

/-- A copy into the part of the buffer that is still zero, right behind what was written. -/
theorem copySlice_zeros {done xs : List Byte} {n i : Nat} (hi : i = done.length) (h : xs.length ≤ n) :
    copySlice (done ++ List.replicate n 0) i xs = some ((done ++ xs) ++ List.replicate (n - xs.length) 0) := by
  subst hi
  have hlen : done.length + xs.length ≤ (done ++ List.replicate n (0 : Byte)).length := by
    simp
    omega
  rw [copySlice, if_pos hlen, List.take_left, List.drop_append, List.drop_of_length_le (by omega), List.nil_append,
    List.append_assoc]
  congr 3
  simp

theorem length_le (n v : Nat) : (le n v).length = n := by simp [le]

/-- One record is written behind the others. -/
theorem fillEntries_cons {dir : Listing} {count : Nat} {e : DirEntry} {rest : List DirEntry} {index n : Nat} {done : List Byte}
    (hs : Short e.name) (hfit : recordLength e.name ≤ n) (hcount : done.length + n = count) :
    fillEntries dir count (e :: rest) index done.length (done ++ List.replicate n 0) =
      fillEntries dir count rest (index + 1) (done ++ (record dir index e).bytes).length
        ((done ++ (record dir index e).bytes) ++ List.replicate (n - recordLength e.name) 0) := by
  have hwf : (record dir index e).WellFormed := record_wellFormed hs
  have hroom : 19 + e.name.length + 1 ≤ recordLength e.name := hwf.room
  have hlen : (record dir index e).bytes.length = recordLength e.name := Dirent.length_bytes hwf
  rw [fillEntries, if_neg (by omega)]
  rw [copySlice_zeros rfl (by rw [length_le]; omega), Option.bind_some, length_le]
  rw [copySlice_zeros (by simp [length_le]) (by rw [length_le]; omega), Option.bind_some, length_le]
  rw [copySlice_zeros (by simp [length_le]) (by rw [length_le]; omega), Option.bind_some, length_le]
  rw [copySlice_zeros (by simp [length_le]) (by simp; omega), Option.bind_some]
  rw [copySlice_zeros (by simp [length_le]) (by simp; omega), Option.bind_some]
  have hzeros : List.replicate (n - 8 - 8 - 2 - [typeByte dir e.name].length - e.name.length) (0 : Byte) =
      List.replicate (recordLength e.name - 19 - e.name.length) 0 ++ List.replicate (n - recordLength e.name) 0 := by
    rw [List.replicate_append_replicate]
    congr 1
    simp
    omega
  rw [hzeros, List.length_append, hlen]
  congr 1
  simp [Dirent.bytes, record]

/-- The loop writes the records of the entries that fit, and stops behind the last of them. -/
theorem fillEntries_spec {dir : Listing} {count : Nat} : ∀ (es : List DirEntry) (index n : Nat) (done : List Byte),
    (∀ e ∈ es, Short e.name) → done.length + n = count →
    ∃ k, k ≤ es.length ∧ fillEntries dir count es index done.length (done ++ List.replicate n 0) =
      some (done ++ (recordsFrom dir index (es.take k)).flatMap Dirent.bytes ++
          List.replicate (n - ((recordsFrom dir index (es.take k)).flatMap Dirent.bytes).length) 0,
        done.length + ((recordsFrom dir index (es.take k)).flatMap Dirent.bytes).length, index + k) ∧
      (k = 0 → es = [] ∨ ∃ e rest, es = e :: rest ∧ n < recordLength e.name) := by
  intro es
  induction es with
  | nil =>
    intro index n done _ _
    exact ⟨0, Nat.le_refl _, by simp [fillEntries, recordsFrom], fun _ => Or.inl rfl⟩
  | cons e rest ih =>
    intro index n done hs hcount
    by_cases hfit : recordLength e.name ≤ n
    · have hlen : (record dir index e).bytes.length = recordLength e.name :=
        Dirent.length_bytes (record_wellFormed (hs e List.mem_cons_self))
      obtain ⟨k, hk, hfill, -⟩ := ih (index + 1) (n - recordLength e.name) (done ++ (record dir index e).bytes)
        (fun x hx => hs x (List.mem_cons_of_mem _ hx)) (by rw [List.length_append, hlen]; omega)
      refine ⟨k + 1, by simpa using hk, ?_, nofun⟩
      rw [fillEntries_cons (hs e List.mem_cons_self) hfit hcount, hfill]
      simp only [List.take_succ_cons, recordsFrom, List.flatMap_cons, List.length_append, hlen, List.append_assoc]
      congr 1
      refine Prod.ext ?_ (Prod.ext ?_ ?_)
      · simp only
        congr 4
        omega
      · simp only
        omega
      · simp only
        omega
    · refine ⟨0, Nat.zero_le _, ?_, fun _ => Or.inr ⟨e, rest, rfl, Nat.lt_of_not_le hfit⟩⟩
      rw [fillEntries, if_pos (by omega)]
      simp [recordsFrom]

/-- A call that can list and copy: what it returns. -/
theorem sysGetdents64_spec (dir : Dir) (pos count : Nat) :
    ∃ k, k ≤ dir.entries.length - min pos dir.entries.length ∧
      sysGetdents64 dir pos count true true = some
        ⟨(((recordsFrom dir.toListing (min pos dir.entries.length) (passed dir.entries (min pos dir.entries.length)
            (min pos dir.entries.length + k))).flatMap Dirent.bytes).length : Nat),
          (recordsFrom dir.toListing (min pos dir.entries.length) (passed dir.entries (min pos dir.entries.length)
            (min pos dir.entries.length + k))).flatMap Dirent.bytes,
          min pos dir.entries.length + k⟩ ∧
      (k = 0 → dir.entries.length ≤ pos ∨ ∃ e, dir.entries[pos]? = some e ∧ count < recordLength e.name) := by
  set start := min pos dir.entries.length with hstart
  obtain ⟨k, hk, hfill, hzero⟩ := @fillEntries_spec dir.toListing count (dir.entries.drop start) start count []
    (fun e he => dir.short_of_mem (List.mem_of_mem_drop he)) (by simp)
  simp only [List.nil_append, List.length_nil, Nat.zero_add] at hfill
  refine ⟨k, by simpa using hk, ?_, fun h0 => ?_⟩
  · have hp : passed dir.entries start (start + k) = (dir.entries.drop start).take k := by
      rw [passed, Nat.add_sub_cancel_left]
    simp only [sysGetdents64, Bool.not_true, Bool.false_eq_true, if_false, ← hstart, hfill, Option.map_some, hp]
    simp
  · rcases hzero h0 with hnil | ⟨e, rest, he, hlt⟩
    · left
      have := List.drop_eq_nil_iff.1 hnil
      omega
    · by_cases hpos : dir.entries.length ≤ pos
      · exact Or.inl hpos
      · right
        have hsp : start = pos := by omega
        refine ⟨e, ?_, hlt⟩
        rw [← hsp, ← List.head?_drop, he]
        rfl

/-! ## The invariant -/

/-- The records so far, and where the entries that they name stand. -/
structure Inv (s : State) : Prop where
  records : ∃ records : List Dirent, s.output = records.flatMap Dirent.bytes ∧ (∀ r ∈ records, r.WellFormed) ∧
    records.map (·.name) = s.delivered
  nodup : s.delivered.Nodup
  before : ∀ e ∈ s.dir.entries.take s.pos, e.name ∈ s.delivered
  behind : ∀ e ∈ s.dir.entries.drop s.pos, e.name ∉ s.delivered

/-- A call has room for the record of the entry at the offset; a change leaves only delivered entries before the offset and
none behind it. -/
def Ok (s : State) : Event → Prop
  | .getdents count listed copied =>
    listed = true → copied = true → ∀ e, s.dir.entries[s.pos]? = some e → recordLength e.name ≤ count
  | .change dir =>
    (∀ e ∈ dir.entries.take s.pos, e.name ∈ s.delivered) ∧ ∀ e ∈ dir.entries.drop s.pos, e.name ∉ s.delivered

theorem opened_inv (dir : Dir) : Inv (opened dir) where
  records := ⟨[], rfl, nofun, rfl⟩
  nodup := List.nodup_nil
  before := by simp [opened]
  behind := by simp [opened]

theorem recordsFrom_wellFormed {dir : Listing} {index : Nat} {es : List DirEntry} (h : ∀ e ∈ es, Short e.name) :
    ∀ r ∈ recordsFrom dir index es, r.WellFormed := by
  induction es generalizing index with
  | nil => exact nofun
  | cons e es ih =>
    intro r hr
    rcases List.mem_cons.1 hr with rfl | hr
    · exact record_wellFormed (h e List.mem_cons_self)
    · exact ih (fun x hx => h x (List.mem_cons_of_mem _ hx)) r hr

/-- A call that lists and copies moves the offset over the entries whose records it writes. -/
theorem getdents_inv {s : State} (k : Nat) (h : Inv s) (ret : Int) :
    Inv { s with
      pos := min s.pos s.dir.entries.length + k
      output := s.output ++ (recordsFrom s.dir.toListing (min s.pos s.dir.entries.length)
        (passed s.dir.entries (min s.pos s.dir.entries.length) (min s.pos s.dir.entries.length + k))).flatMap Dirent.bytes
      last := ret
      delivered := s.delivered ++ (passed s.dir.entries (min s.pos s.dir.entries.length)
        (min s.pos s.dir.entries.length + k)).map (·.name) } := by
  set start := min s.pos s.dir.entries.length with hstart
  have hpassed : passed s.dir.entries start (start + k) = (s.dir.entries.drop start).take k := by
    rw [passed, Nat.add_sub_cancel_left]
  rw [hpassed]
  -- the entries before and behind the index are those before and behind the offset
  have htake : s.dir.entries.take s.pos = s.dir.entries.take start := by
    rcases Nat.le_total s.pos s.dir.entries.length with hle | hle
    · rw [hstart, Nat.min_eq_left hle]
    · rw [hstart, Nat.min_eq_right hle, List.take_of_length_le hle, List.take_length]
  have hdrop : s.dir.entries.drop s.pos = s.dir.entries.drop start := by
    rcases Nat.le_total s.pos s.dir.entries.length with hle | hle
    · rw [hstart, Nat.min_eq_left hle]
    · rw [hstart, Nat.min_eq_right hle, List.drop_of_length_le hle, List.drop_length]
  have hbefore := h.before
  have hbehind := h.behind
  rw [htake] at hbefore
  rw [hdrop] at hbehind
  have hnames := s.dir.nodup
  rw [← List.take_append_drop start s.dir.entries, ← List.take_append_drop k (s.dir.entries.drop start), List.map_append,
    List.map_append, List.nodup_append', List.nodup_append'] at hnames
  obtain ⟨-, ⟨hnodup, -, hdisjoint⟩, -⟩ := hnames
  constructor
  · obtain ⟨records, hout, hwf, hmap⟩ := h.records
    refine ⟨records ++ recordsFrom s.dir.toListing start ((s.dir.entries.drop start).take k), ?_, fun r hr => ?_, ?_⟩
    · simp only [hout, List.flatMap_append]
    · rcases List.mem_append.1 hr with hr | hr
      · exact hwf r hr
      · exact recordsFrom_wellFormed (fun e he => s.dir.short_of_mem (List.mem_of_mem_drop (List.mem_of_mem_take he))) r hr
    · rw [List.map_append, hmap, map_name_recordsFrom]
  · refine List.nodup_append'.2 ⟨h.nodup, hnodup, fun name hd hn => ?_⟩
    obtain ⟨e, he, rfl⟩ := List.mem_map.1 hn
    exact hbehind e (List.mem_of_mem_take he) hd
  · intro e he
    simp only [List.take_add] at he
    rcases List.mem_append.1 he with he | he
    · exact List.mem_append_left _ (hbefore e he)
    · exact List.mem_append_right _ (List.mem_map_of_mem he)
  · intro e he hd
    simp only [← List.drop_drop] at he
    rcases List.mem_append.1 hd with hd | hd
    · exact hbehind e (List.mem_of_mem_drop he) hd
    · exact hdisjoint hd (List.mem_map_of_mem he)

/-- What a step does: it never panics, keeps the invariant, and a call that returns 0 has nothing left to deliver. -/
theorem step_spec {s : State} {e : Event} (h : Inv s) (hok : Ok s e) :
    ∃ s', step s e = some s' ∧ Inv s' ∧
      (∀ count listed copied, e = .getdents count listed copied → s'.last = 0 →
        ∀ x ∈ s'.dir.entries, x.name ∈ s'.delivered) := by
  cases e with
  | change dir =>
    refine ⟨_, rfl, ⟨h.records, h.nodup, hok.1, hok.2⟩, nofun⟩
  | getdents count listed copied =>
    have hnone : (passed s.dir.entries (min s.pos s.dir.entries.length) s.pos).map (·.name) = [] := by
      rw [passed]
      rcases Nat.le_total s.pos s.dir.entries.length with hle | hle
      · rw [Nat.min_eq_left hle, Nat.sub_self]
        rfl
      · rw [Nat.min_eq_right hle, List.drop_length]
        simp
    obtain ⟨k, hk, hcall, hzero⟩ := sysGetdents64_spec s.dir s.pos count
    cases listed with
    | false =>
      refine ⟨_, rfl, ?_, fun _ _ _ _ hlast => absurd hlast (by simp)⟩
      simp only [hnone, List.append_nil]
      exact ⟨h.records, h.nodup, h.before, h.behind⟩
    | true =>
      cases copied with
      | false =>
        have he : sysGetdents64 s.dir s.pos count true false = some ⟨-14, [], s.pos⟩ := by
          have hsome : (sysGetdents64 s.dir s.pos count true true).isSome = true := by rw [hcall]; rfl
          simp only [sysGetdents64, Bool.not_true, Bool.false_eq_true, if_false, Option.isSome_map] at hsome
          obtain ⟨r, hr⟩ := Option.isSome_iff_exists.1 hsome
          simp only [sysGetdents64, Bool.not_true, Bool.false_eq_true, if_false, hr, Option.map_some, Bool.not_false,
            if_true]
        refine ⟨_, by rw [step, he, Option.map_some], ?_, fun _ _ _ _ hlast => absurd hlast (by simp)⟩
        simp only [hnone, List.append_nil]
        exact ⟨h.records, h.nodup, h.before, h.behind⟩
      | true =>
        have hinv := getdents_inv k h
        refine ⟨_, by rw [step, hcall, Option.map_some], hinv _, fun _ _ _ _ hlast x hx => ?_⟩
        -- nothing was written, so the loop stopped at once, and there was room for a record
        simp only [Int.natCast_eq_zero, List.length_eq_zero_iff] at hlast
        have hk0 : k = 0 := by
          by_contra hne
          have hlen : 0 < (passed s.dir.entries (min s.pos s.dir.entries.length)
              (min s.pos s.dir.entries.length + k)).length := by
            rw [passed, List.length_take, List.length_drop]
            omega
          obtain ⟨e, es, hes⟩ := List.exists_cons_of_length_pos hlen
          rw [hes, recordsFrom, List.flatMap_cons, List.append_eq_nil_iff] at hlast
          have := congrArg List.length hlast.1
          simp [Dirent.bytes, length_le] at this
        have hend : s.dir.entries.length ≤ s.pos := by
          rcases hzero hk0 with hend | ⟨e, he, hlt⟩
          · exact hend
          · have := hok rfl rfl e he
            omega
        refine (hinv 0).before x ?_
        simp only [List.take_of_length_le (show s.dir.entries.length ≤ min s.pos s.dir.entries.length + k by omega)]
        exact hx

theorem run_inv : ∀ (es : List Event) {s : State}, Inv s → Meets step Ok s es → ∃ s', runs step s es = some s' ∧ Inv s'
  | [], s, h, _ => ⟨s, rfl, h⟩
  | e :: es, s, h, hok => by
    obtain ⟨s₁, hs₁, hinv, -⟩ := step_spec h hok.1
    obtain ⟨s', hs', hinv'⟩ := run_inv es hinv (hok.2 s₁ hs₁)
    exact ⟨s', by rw [runs, hs₁, Option.bind_some, hs'], hinv'⟩

/-- **A directory is read completely**, in every run whose calls have room for the next record and whose changes leave
exactly the delivered entries before the offset: no call panics, the bytes are well-formed records with distinct names, and
a call that returns 0 finds every entry delivered, once. -/
theorem dents_complete (dir : Dir) (es : List Event) (hok : Meets step Ok (opened dir) es) :
    ∃ s, runs step (opened dir) es = some s ∧
      (∃ records : List Dirent, s.output = records.flatMap Dirent.bytes ∧ (∀ r ∈ records, r.WellFormed) ∧
        records.map (·.name) = s.delivered) ∧ s.delivered.Nodup ∧
      ∀ count listed copied, Ok s (.getdents count listed copied) → ∃ s', step s (.getdents count listed copied) = some s' ∧
        (s'.last = 0 → ∀ x ∈ s'.dir.entries, s'.delivered.count x.name = 1) := by
  obtain ⟨s, hs, hinv⟩ := run_inv es (opened_inv dir) hok
  refine ⟨s, hs, hinv.records, hinv.nodup, fun count listed copied hcall => ?_⟩
  obtain ⟨s', hs', hinv', hall⟩ := step_spec hinv hcall
  exact ⟨s', hs', fun hlast x hx => List.count_eq_one_of_mem hinv'.nodup (hall count listed copied rfl hlast x hx)⟩

/-! ## Three entries -/

/-- The entries `a`, `b` and `c`. -/
def three : Dir where
  entries := [⟨[97], 11⟩, ⟨[98], 12⟩, ⟨[99], 13⟩]
  fileType := fun _ => some .regular
  nodup := by decide
  short := by decide

/-- Without `a`. -/
def lastTwo : Dir where
  entries := [⟨[98], 12⟩, ⟨[99], 13⟩]
  fileType := fun _ => some .regular
  nodup := by decide
  short := by decide

instance (s : State) (e : Event) : Decidable (Ok s e) :=
  match e with
  | .getdents count listed copied =>
    match h : s.dir.entries[s.pos]? with
    | none => .isTrue fun _ _ e he => by rw [h] at he; cases he
    | some e => decidable_of_iff (listed = true → copied = true → recordLength e.name ≤ count)
        ⟨fun hle hl hc x hx => by rw [h] at hx; cases hx; exact hle hl hc, fun hok hl hc => hok hl hc e h⟩
  | .change _ => inferInstanceAs (Decidable (_ ∧ _))

/-- Two calls with room for two records, then one that returns 0. -/
theorem dents_complete_three : Meets step Ok (opened three) [.getdents 60 true true, .getdents 60 true true] ∧
    ∃ s, runs step (opened three) [.getdents 60 true true, .getdents 60 true true] = some s ∧
      ∃ s', step s (.getdents 60 true true) = some s' ∧ s'.last = 0 ∧ ∀ x ∈ s'.dir.entries, s'.delivered.count x.name = 1 := by
  have hok : Meets step Ok (opened three) [.getdents 60 true true, .getdents 60 true true] := by decide +kernel
  obtain ⟨s, hs, -, -, hlast⟩ := dents_complete three _ hok
  have hget : (runs step (opened three) [.getdents 60 true true, .getdents 60 true true]).any
      (fun s => s.dir.entries[s.pos]? = none ∧ (step s (.getdents 60 true true)).any (·.last = 0)) = true := by
    decide +kernel
  rw [hs] at hget
  obtain ⟨hnone, hzero⟩ := of_decide_eq_true (show decide _ = true from hget)
  obtain ⟨s', hs', hall⟩ := hlast 60 true true (fun _ _ e he => by rw [hnone] at he; cases he)
  refine ⟨hok, s, hs, s', hs', ?_⟩
  rw [hs'] at hzero
  have hz : s'.last = 0 := of_decide_eq_true hzero
  exact ⟨hz, hall hz⟩

/-- A buffer of 8 bytes: the call returns 0 and nothing was delivered. And when `a` is unlinked after it was delivered, the
next calls deliver `c` and return 0, and `b` is never delivered. -/
theorem dents_misses :
    ((runs step (opened three) [.getdents 8 true true]).any fun s => s.last = 0 ∧ s.delivered = []) = true ∧
      ((runs step (opened three) [.getdents 24 true true, .change lastTwo, .getdents 24 true true,
        .getdents 24 true true]).any fun s => s.last = 0 ∧ s.delivered = [[97], [99]]) = true := by
  decide +kernel

end Koros.Dents
