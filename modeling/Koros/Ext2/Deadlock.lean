import Koros.Ext2.LockOrder

/-!
# Waits among ext2 operations

`lock_discipline`: in every interleaving of any number of tasks, no task waits for a lock it holds and no tasks wait in
a cycle, as long as `Ext2INode::read` runs inside a transaction and outside of the ancestor walk and the walk meets no
regular file. `rename_waits_for_itself` is the walk that meets a directory which is not in the inode cache.
-/

set_option autoImplicit false

namespace Koros.Ext2.Locking

open Koros.Locks Koros.Locks.Discipline

/-! ## No cycle of waits -/

/-- The condition on a step of task `t`: it calls `Ext2INode::read` only inside a transaction and not under the
superblock guard, and the ancestor walk looks `..` up only in inodes that are not regular files. -/
def careful (s : State Data Call) (t : Nat) : Bool :=
  match s.nextCall t with
  | some (.read _) =>
    decide (Lock.metadataTransaction ∈ guards (s.task t).stack) && decide (Lock.superBlock ∉ guards (s.task t).stack)
  | some (.walk obj) => !isRegular (s.data (.raw obj))
  | none => true

/-- Every step of the run meets the condition. -/
def carefulRun (s : State Data Call) : List (Nat × Act Op) → Bool
  | [] => true
  | (t, a) :: es =>
    careful s t &&
      match s.step Op.body t a with
      | some s' => carefulRun s' es
      | none => true

theorem careful_admits {s : State Data Call} {t : Nat} (h : careful s t = true) : ext2.Admits s t := by
  intro e he
  simp only [careful, he] at h
  cases e with
  | read ino =>
    have hheld : .metadataTransaction ∈ guards (s.task t).stack ∧ .superBlock ∉ guards (s.task t).stack := by
      simpa using h
    exact ⟨hheld, fun l => trivial⟩
  | walk obj =>
    refine ⟨trivial, fun l => ?_⟩
    cases l with
    | raw obj' =>
      rintro rfl
      simpa using h
    | _ => trivial

theorem carefulRun_admits {s : State Data Call} {es : List (Nat × Act Op)} (h : carefulRun s es = true) :
    ext2.RunAdmits Op.body s es := by
  induction es generalizing s with
  | nil => trivial
  | cons e es ih =>
    obtain ⟨t, a⟩ := e
    simp only [carefulRun, Bool.and_eq_true] at h
    refine ⟨careful_admits h.1, ?_⟩
    have hrest := h.2
    cases hs : s.step Op.body t a with
    | none => trivial
    | some s' =>
      simp only [hs] at hrest
      exact ih hrest

section Waits

variable {s : State Data Call}

theorem inv_canLock (h : Inv ext2 s) {t : Nat} {l : Lock} (hreq : s.Requests t l) :
    CanLock (s.task t).stack l := by
  have hok := h.ok t
  cases hp : (s.task t).prog with
  | lock l' k =>
    rw [hp] at hok
    have hl : l' = l := by simpa [State.Requests, Prog.request, hp] using hreq
    subst hl
    exact hok.1
  | _ => simp [State.Requests, Prog.request, hp] at hreq

/-- A task that asks for a lock outside of a transaction holds nothing, the inode cache (and asks for `self_ref`), or
one regular file (and asks for the superblock). -/
theorem canLock_outside {S : Stack} {l : Lock} (h : CanLock S l) (hgate : .metadataTransaction ∉ guards S) :
    S = [] ∨ (∃ c, S = [.guard .inodeCache c] ∧ l = .selfRef) ∨
      ∃ obj mode, S = [.guard (.raw obj) mode] ∧ isRegular mode = true ∧ l = .superBlock := by
  cases h with
  | idle => exact .inl rfl
  | upgrade c => exact .inr (.inl ⟨c, rfl, rfl⟩)
  | sized obj mode hreg => exact .inr (.inr ⟨obj, mode, rfl, hreg, rfl⟩)
  | transaction _ _ hin => exact absurd hin hgate

theorem canLock_new {S : Stack} {l : Lock} (h : CanLock S l) : l ∉ guards S := by
  cases h with
  | idle => simp
  | upgrade c => simp
  | sized obj mode hreg => simp
  | transaction _ _ _ _ hnew => exact hnew

/-- Nothing is asked for under `self_ref`. -/
theorem canLock_leaf {S : Stack} {l : Lock} (h : CanLock S l) : .selfRef ∉ guards S := by
  cases h with
  | idle => simp
  | upgrade c => simp
  | sized obj mode hreg => simp
  | transaction _ _ _ hleaf => exact hleaf

/-- An inode is asked for under the superblock only by the walk. -/
theorem canLock_walk {S : Stack} {obj : Nat} (h : CanLock S (.raw obj)) (hsb : .superBlock ∈ guards S) :
    Frame.call (.walk obj) ∈ S := by
  cases h with
  | idle => simp at hsb
  | transaction _ _ _ _ _ hraw => exact hraw obj rfl hsb

open Classical in
/-- The rank of a task among those that wait. A task outside of a transaction that waits for the superblock comes
before the transaction if the transaction holds the superblock, and after it otherwise. -/
noncomputable def rank (s : State Data Call) (t : Nat) : Nat :=
  if (s.task t).prog.request = none then 4
  else if guards (s.task t).stack = [] then 0
  else if s.Holds t .metadataTransaction then 2
  else if s.Requests t .superBlock ∧ ∃ u, s.Holds u .metadataTransaction ∧ s.Holds u .superBlock then 1
  else 3

theorem rank_free {t : Nat} (h : (s.task t).prog.request = none) : rank s t = 4 := by
  simp [rank, h]

theorem rank_le_three {t : Nat} {l : Lock} (h : s.Requests t l) : rank s t ≤ 3 := by
  have hreq : (s.task t).prog.request = some l := h
  simp only [rank, hreq, reduceCtorEq, if_false]
  split_ifs <;> omega

theorem rank_pos {t : Nat} {l : Lock} (h : s.Holds t l) : 1 ≤ rank s t := by
  have hne : guards (s.task t).stack ≠ [] := List.ne_nil_of_mem h
  simp only [rank, hne, if_false]
  split_ifs <;> omega

theorem rank_transaction {t : Nat} {l : Lock} (hreq : s.Requests t l) (h : s.Holds t .metadataTransaction) :
    rank s t = 2 := by
  have hreq' : (s.task t).prog.request = some l := hreq
  have hne : guards (s.task t).stack ≠ [] := List.ne_nil_of_mem h
  simp [rank, hreq', hne, h]

/-- A task outside of a transaction that holds the superblock or `self_ref` asks for nothing. -/
theorem request_eq_none (h : Inv ext2 s) {t : Nat} (hgate : ¬ s.Holds t .metadataTransaction)
    (hsb : s.Holds t .superBlock) : (s.task t).prog.request = none := by
  cases hreq : (s.task t).prog.request with
  | none => rfl
  | some l =>
    exfalso
    rcases canLock_outside (inv_canLock h hreq) hgate with hS | ⟨c, hS, -⟩ | ⟨obj, mode, hS, -, -⟩ <;>
      simp [State.Holds, hS] at hsb

/-- The walk does not wait for a task that waits for the superblock. -/
theorem transaction_rank_lt (h : Inv ext2 s) {t u : Nat} {l : Lock} (hreq : s.Requests t l) (hheld : s.Holds u l)
    (hgate : s.Holds t .metadataTransaction) : rank s t < rank s u := by
  have hcan := inv_canLock h hreq
  rw [rank_transaction hreq hgate]
  have hne : u ≠ t := by
    rintro rfl
    exact canLock_new hcan hheld
  have hout : ¬ s.Holds u .metadataTransaction := fun hu => hne (h.holder_unique hu hgate)
  cases hu : (s.task u).prog.request with
  | none => simp [rank_free hu]
  | some l' =>
    have hne' : guards (s.task u).stack ≠ [] := List.ne_nil_of_mem hheld
    have hnot : ¬ (s.Requests u .superBlock ∧ ∃ v, s.Holds v .metadataTransaction ∧ s.Holds v .superBlock) := by
      rintro ⟨hreqsb, v, hv, hvsb⟩
      obtain rfl : v = t := h.holder_unique hv hgate
      -- `u` holds one regular file, so the transaction walks it
      rcases canLock_outside (inv_canLock h hreqsb) hout with hS | ⟨c, hS, hl⟩ | ⟨obj, mode, hS, hreg, -⟩
      · exact hne' (by simp [hS])
      · cases hl
      · have hl : l = .raw obj := by simpa [State.Holds, hS] using hheld
        subst hl
        have hwalk := h.facts v (.walk obj) (canLock_walk hcan hvsb) (.raw obj) rfl
        have hmode : s.data (.raw obj) = mode := h.data u (.raw obj) mode (by simp [hS])
        rw [hmode, hreg] at hwalk
        cases hwalk
    simp [rank, hu, hne', hout, hnot]

theorem rank_lt (h : Inv ext2 s) {t u : Nat} (hw : s.WaitsFor t u) : rank s t < rank s u := by
  obtain ⟨l, hreq, hheld⟩ := hw
  by_cases hgate : s.Holds t .metadataTransaction
  · exact transaction_rank_lt h hreq hheld hgate
  have hreq' : (s.task t).prog.request = some l := hreq
  rcases canLock_outside (inv_canLock h hreq) hgate with hS | ⟨c, hS, rfl⟩ | ⟨obj, mode, hS, hreg, rfl⟩
  · have hzero : rank s t = 0 := by simp [rank, hreq', hS]
    have hpos := rank_pos hheld
    omega
  · have hfree : (s.task u).prog.request = none := by
      cases hu : (s.task u).prog.request with
      | none => rfl
      | some l' => exact absurd hheld (canLock_leaf (inv_canLock h hu))
    have hle := rank_le_three hreq
    rw [rank_free hfree]
    omega
  · by_cases hgateu : s.Holds u .metadataTransaction
    · have hone : rank s t = 1 := by
        have hex : ∃ v, s.Holds v .metadataTransaction ∧ s.Holds v .superBlock := ⟨u, hgateu, hheld⟩
        have hreqsb : s.Requests t .superBlock := hreq
        simp [rank, hreq', hS, hgate, hreqsb, hex]
      cases hu : (s.task u).prog.request with
      | none =>
        rw [hone, rank_free hu]
        omega
      | some l' =>
        rw [hone, rank_transaction hu hgateu]
        omega
    · have hle := rank_le_three hreq
      rw [rank_free (request_eq_none h hgateu hheld)]
      omega

end Waits

/-- **The lock discipline.** In every interleaving of any number of tasks whose calls of `Ext2INode::read` are made
inside a transaction and not under the superblock guard, and whose ancestor walks meet no regular file, no task asks
for a lock it holds and no tasks wait in a cycle. -/
theorem lock_discipline (s₀ : State Data Call) (hidle : ∀ t, s₀.task t = ⟨[], .pure ()⟩) (es : List (Nat × Act Op))
    (hcareful : carefulRun s₀ es = true) (s : State Data Call) (hrun : s₀.run Op.body es = some s) :
    (∀ t l, s.Requests t l → ¬ s.Holds t l) ∧ ∀ t, ¬ Relation.TransGen s.WaitsFor t t := by
  have h : Inv ext2 s := inv_run body_ok (inv_of_idle hidle) (carefulRun_admits hcareful) hrun
  constructor
  · intro t l hreq
    exact canLock_new (inv_canLock h hreq)
  · exact not_transGen_waitsFor (rank s) fun t u hw => rank_lt h hw

/-! ## A walk that meets an uncached directory -/

/-- An idle filesystem: directories 11, 12 and, if `cached`, 13 have live objects; object 5 is a regular file. -/
def treeState (cached : Bool) : State Data Call where
  task := fun _ => ⟨[], .pure ()⟩
  owner := fun _ => none
  data := fun
    | .inodeCache =>
      ⟨fun ino => if ino = 11 then some 1 else if ino = 12 then some 2 else if ino = 13 ∧ cached then some 3 else none, 4⟩
    | .raw obj => if obj = 5 then EXT2_S_IFREG else EXT2_S_IFDIR
    | .metadataTransaction => ()
    | .selfRef => ()
    | .superBlock => ()
    | .blockGroups => ()
    | .cache => ()

/-- The steps of `dir::lookup` in a directory of one block that holds the name under `ino`. -/
def findsEntry (ino : Nat) : List Nat := [0, 0, 0, 0, 1, 0, 0, 1, 0, 0, 0, 0, 0, 0, 0, 0, 0, 0, 0, ino]

/-- The steps of a `get_inode` that finds a live object. -/
def hits : List Nat := [0, 1, 0]

/-- `rename` of directory 12 into directory 11, whose `..` is 13: up to the step of the walk that follows. -/
def renameSteps : List Nat :=
  [0, 0] ++ findsEntry 12 ++ hits ++ [0, 0, 0, 0] ++ [0, 10] ++ hits ++ [0] ++ findsEntry 13 ++ [0]

def renameRun (steps : List Nat) : List (Nat × Act Op) :=
  (0, .start (.rename ⟨0, 2⟩ ⟨1, 11⟩)) :: (renameSteps ++ steps).map fun n => (0, .go n)

/-- Directory 13 is not cached: `Ext2INode::read` asks for the superblock that the walk holds. -/
theorem rename_waits_for_itself :
    ∃ s, (treeState false).run Op.body (renameRun [0, 0, 0, 0, 0, 0]) = some s ∧
      s.Requests 0 .superBlock ∧ s.Holds 0 .superBlock := by
  have hsome : ((treeState false).run Op.body (renameRun [0, 0, 0, 0, 0, 0])).any
      (fun s => (s.task 0).prog.request == some .superBlock &&
        decide (Lock.superBlock ∈ guards (s.task 0).stack)) = true := by decide +kernel
  obtain ⟨s, hs, htest⟩ := (Option.any_eq_true _ _).mp hsome
  simp only [Bool.and_eq_true, beq_iff_eq, decide_eq_true_eq] at htest
  exact ⟨s, hs, htest⟩

/-- Directory 13 is cached and its `..` is the root; meanwhile task 1 is in `getattr` of a regular file and waits for
the superblock. -/
def busyRun : List (Nat × Act Op) :=
  (1, .start (.getattr ⟨5, 20⟩)) :: (1, .go 0) :: renameRun (hits ++ [0] ++ findsEntry 2 ++ [0])

theorem lock_discipline_busyRun :
    ∃ s, (treeState true).run Op.body busyRun = some s ∧ s.WaitsFor 1 0 ∧
      (∀ t l, s.Requests t l → ¬ s.Holds t l) ∧ ∀ t, ¬ Relation.TransGen s.WaitsFor t t := by
  have hsome : ((treeState true).run Op.body busyRun).any
      (fun s => (s.task 1).prog.request == some .superBlock &&
        decide (Lock.superBlock ∈ guards (s.task 0).stack)) = true := by decide +kernel
  obtain ⟨s, hs, htest⟩ := (Option.any_eq_true _ _).mp hsome
  simp only [Bool.and_eq_true, beq_iff_eq, decide_eq_true_eq] at htest
  refine ⟨s, hs, ⟨.superBlock, htest⟩, ?_⟩
  exact lock_discipline (treeState true) (fun _ => rfl) busyRun (by decide +kernel) s hs

end Koros.Ext2.Locking
