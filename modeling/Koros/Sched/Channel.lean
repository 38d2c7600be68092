import Koros.Sched.Semaphore
import Mathlib.Algebra.Ring.Nat

/-!
# Channels

`Channel` of `kor-sched/src/sync.rs` on the scheduler of `Koros.Sched.Model`: a queue under a blocking mutex (a semaphore
of count one) and a semaphore `items` with one unit for each item. Each task has a position in `send` or `recv` (`Pc`);
the queue itself is ordinary memory, read and written in two separate steps, so that nothing but the mutex keeps two
tasks from using it at once. All tasks of all CPUs may call `send` and `recv`, and everything else the scheduler can do
happens in between.

- the guard: the mutex's count and the tasks that hold a guard add up to one (`Inv.guard`);
- a unit implies an item: the units of `items`, the receivers that took one and have not popped yet and the senders that
  pushed and have not posted yet are covered by the items in the queue (`Inv.tokens`);
- `step_channel`, and **`channel_delivery`** for every run.
-/
set_option autoImplicit false

namespace Koros.Sched.Mpmc

open Koros.Lib

/-- The two blocking objects of a channel: the semaphore of `queue`'s mutex and `items`. -/
structure Channel (m : Nat) where
  queue : Fin m
  items : Fin m
  ne : queue ≠ items

/-- The position of a task in `send` and `recv`. -/
inductive Pc (T : Type) where
  /-- Outside the channel. -/
  | outside
  /-- `send`: `self.queue.lock()`. -/
  | sendLock (item : T)
  /-- `push_back` under the guard. -/
  | sendPush (item : T)
  /-- `push_back` has read the queue. -/
  | sendStore (item : T) (seen : List T)
  /-- The guard is dropped. -/
  | sendUnlock
  /-- `self.items.post()`. -/
  | sendPost
  /-- `recv`: `self.items.wait()`. -/
  | recvWait
  /-- `self.queue.lock()`. -/
  | recvLock
  /-- `pop_front` under the guard. -/
  | recvPop
  /-- `pop_front` has read the queue. -/
  | recvStore (seen : List T)
  /-- The guard is dropped and `item`, the `k`-th one removed, is returned. -/
  | recvUnlock (k : Nat) (item : T)
  /-- `expect("channel item missing")` failed. -/
  | panicked
deriving DecidableEq, Repr

/-- The machine with one channel. -/
structure World (n m : Nat) (C T : Type) where
  sys : Sys n m C
  /-- The `VecDeque` inside the mutex. -/
  queue : List T
  pc : TaskRef n → Pc T
  /-- The items in the order in which they were appended. -/
  appended : List T
  /-- The items in the order in which they were removed. -/
  removed : List T
  /-- The completed calls of `recv`: which removed item each returned. -/
  returned : List (Nat × T)

/-- What a CPU can do. -/
inductive Act (m : Nat) (C T : Type) where
  /-- The running task calls `send`. -/
  | send (item : T)
  /-- The running task calls `recv`. -/
  | recv
  /-- A round of `wait` on the mutex. -/
  | lock
  /-- The drop of the guard. -/
  | unlock
  /-- A round of `wait` on `items`. -/
  | wait
  /-- `post` on `items`. -/
  | post
  /-- The first half of the access to the queue. -/
  | load
  /-- The second half. -/
  | store
  /-- Anything else. -/
  | sched (event : Event m C)

section Steps

variable {n m : Nat} {C T : Type}

/-- The event is a call on semaphore `w`. -/
def uses (w : Fin m) (e : Event m C) : Bool := e.isWait w || e.isPost w || e.isPlain w

namespace World

/-- The task that CPU `c` executes. -/
def task (w : World n m C T) (c : Fin n) : TaskRef n := (w.sys.cpus c).stack

def setPc (w : World n m C T) (c : Fin n) (p : Pc T) : World n m C T :=
  { w with pc := Function.update w.pc (w.task c) p }

/-- CPU `c` executes its task's own code, with nothing left to finish in the scheduler. -/
def runs (w : World n m C T) (c : Fin n) : Bool :=
  (w.sys.cpus c).phase = .run && w.sys.resume (w.task c) = .caller

def send (w : World n m C T) (c : Fin n) (item : T) : Option (World n m C T) :=
  match w.pc (w.task c) with
  | .outside => some (w.setPc c (.sendLock item))
  | _ => none

def recv (w : World n m C T) (c : Fin n) : Option (World n m C T) :=
  match w.pc (w.task c) with
  | .outside => some (w.setPc c .recvWait)
  | _ => none

/-- A round of `self.queue.lock()`: the task goes on once it has taken the unit. -/
def lock (ch : Channel m) (w : World n m C T) (c : Fin n) : Option (World n m C T) :=
  (w.sys.step c (.call (.semWait ch.queue))).bind fun s =>
    let taken : Bool := 0 < (w.sys.sems ch.queue).count
    match w.pc (w.task c) with
    | .sendLock item => some { (if taken then w.setPc c (.sendPush item) else w) with sys := s }
    | .recvLock => some { (if taken then w.setPc c .recvPop else w) with sys := s }
    | _ => none

def unlock (ch : Channel m) (w : World n m C T) (c : Fin n) : Option (World n m C T) :=
  (w.sys.step c (.call (.semPost ch.queue))).bind fun s =>
    match w.pc (w.task c) with
    | .sendUnlock => some { w.setPc c .sendPost with sys := s }
    | .recvUnlock k item => some { w.setPc c .outside with sys := s, returned := w.returned ++ [(k, item)] }
    | _ => none

def wait (ch : Channel m) (w : World n m C T) (c : Fin n) : Option (World n m C T) :=
  (w.sys.step c (.call (.semWait ch.items))).bind fun s =>
    let taken : Bool := 0 < (w.sys.sems ch.items).count
    match w.pc (w.task c) with
    | .recvWait => some { (if taken then w.setPc c .recvLock else w) with sys := s }
    | _ => none

def post (ch : Channel m) (w : World n m C T) (c : Fin n) : Option (World n m C T) :=
  (w.sys.step c (.call (.semPost ch.items))).bind fun s =>
    match w.pc (w.task c) with
    | .sendPost => some { w.setPc c .outside with sys := s }
    | _ => none

def load (w : World n m C T) (c : Fin n) : Option (World n m C T) :=
  match w.pc (w.task c) with
  | .sendPush item => some (w.setPc c (.sendStore item w.queue))
  | .recvPop => some (w.setPc c (.recvStore w.queue))
  | _ => none

/-- The queue becomes what the task makes of the one it read. -/
def store (w : World n m C T) (c : Fin n) : Option (World n m C T) :=
  match w.pc (w.task c) with
  | .sendStore item seen =>
    some { w.setPc c .sendUnlock with queue := seen ++ [item], appended := w.appended ++ [item] }
  | .recvStore [] => some (w.setPc c .panicked)
  | .recvStore (item :: rest) =>
    some { w.setPc c (.recvUnlock w.removed.length item) with queue := rest, removed := w.removed ++ [item] }
  | _ => none

/-- One step of CPU `c`. The two semaphores belong to the channel: only its own code uses them. -/
def step (ch : Channel m) (w : World n m C T) (c : Fin n) : Act m C T → Option (World n m C T)
  | .send item => if w.runs c then w.send c item else none
  | .recv => if w.runs c then w.recv c else none
  | .lock => w.lock ch c
  | .unlock => w.unlock ch c
  | .wait => w.wait ch c
  | .post => w.post ch c
  | .load => if w.runs c then w.load c else none
  | .store => if w.runs c then w.store c else none
  | .sched e =>
    if uses ch.queue e || uses ch.items e then none else (w.sys.step c e).map fun s => { w with sys := s }

def run (ch : Channel m) (w : World n m C T) : List (Fin n × Act m C T) → Option (World n m C T)
  | [] => some w
  | (c, a) :: as => (w.step ch c a).bind fun w => w.run ch as

/-- `Channel::new` on the machine at boot. -/
def boot (ch : Channel m) (counts : Fin m → Int) (regs : Fin n → C) (zero : C) : World n m C T where
  sys := .boot (Function.update (Function.update counts ch.queue 1) ch.items 0) regs zero
  queue := []
  pc := fun _ => .outside
  appended := []
  removed := []
  returned := []

end World

/-! ## What the calls do to the counts -/

section Counts

variable {s s' : Sys n m C} {c : Fin n} {v u : Fin m}

theorem wait_count (h : Sched.Inv s) (hs : s.step c (.call (.semWait v)) = some s') :
    (s'.sems v).count = (s.sems v).count - if 0 < (s.sems v).count then 1 else 0 := by
  cases step_sem h (w := v) rfl hs with
  | quiet hwait => simp [Event.isWait] at hwait
  | take _ hcount hsem => rw [hsem, if_pos hcount]
  | block _ hcount hsem => rw [hsem, if_neg (by omega), sub_zero]

theorem post_count (h : Sched.Inv s) (hs : s.step c (.call (.semPost v)) = some s') :
    (s'.sems v).count = Int.bmod ((s.sems v).count + 1) (2 ^ 64) := by
  cases step_sem h (w := v) rfl hs with
  | quiet _ hpost => simp [Event.isPost] at hpost
  | post _ hsem => rw [hsem]

/-- A call on another semaphore, or none, leaves the count alone. -/
theorem other_count (h : Sched.Inv s) {e : Event m C} (hu : uses u e = false) (hs : s.step c e = some s') :
    (s'.sems u).count = (s.sems u).count := by
  simp only [uses, Bool.or_eq_false_iff] at hu
  obtain ⟨⟨hwait, hpost⟩, hplain⟩ := hu
  cases step_sem h hplain hs with
  | quiet _ _ hq => rw [hq.sems]
  | post => simp [Event.isPost] at hpost
  | take => simp [Event.isWait] at hwait
  | block => simp [Event.isWait] at hwait
  | park t _ hsem => rw [hsem]

theorem uses_wait (hne : u ≠ v) : uses u (.call (.semWait v) : Event m C) = false := by
  simp [uses, Event.isWait, Event.isPost, Event.isPlain, hne]

theorem uses_post (hne : u ≠ v) : uses u (.call (.semPost v) : Event m C) = false := by
  simp [uses, Event.isWait, Event.isPost, Event.isPlain, hne]

/-- A wrapped count is negative: no unit appears out of nothing. -/
theorem toNat_bmod_le {k : Int} (hk : -2 ^ 63 ≤ k) : (Int.bmod (k + 1) (2 ^ 64)).toNat ≤ k.toNat + 1 := by
  by_cases hlt : k + 1 < 2 ^ 63
  · rw [Int.bmod_eq_of_le (by omega) (by omega)]
    omega
  · have hmax : Int.bmod (k + 1) (2 ^ 64) < (2 ^ 64 + 1) / 2 := Int.bmod_lt (by decide)
    omega

theorem le_bmod (k : Int) : -2 ^ 63 ≤ Int.bmod k (2 ^ 64) := by
  have h : -((2 ^ 64 : Nat) : Int) / 2 ≤ Int.bmod k (2 ^ 64) := Int.le_bmod (by decide)
  omega

end Counts

end Steps

/-! ## The invariant -/

section Invariant

variable {n m : Nat} {C T : Type}

/-- One if the task holds a guard of the mutex. -/
def Pc.guard : Pc T → Nat
  | .sendPush _ | .sendStore _ _ | .sendUnlock | .recvPop | .recvStore _ | .recvUnlock _ _ | .panicked => 1
  | _ => 0

/-- One if an item of the queue is spoken for: a receiver took a unit and has not popped yet, or a sender pushed and has
not posted yet. -/
def Pc.owed : Pc T → Nat
  | .recvLock | .recvPop | .recvStore _ | .sendUnlock | .sendPost => 1
  | _ => 0

/-- The queue as the task read it. -/
def Pc.seen : Pc T → Option (List T)
  | .sendStore _ seen | .recvStore seen => some seen
  | _ => none

/-- The item that the task is about to return. -/
def Pc.result : Pc T → Option (Nat × T)
  | .recvUnlock k item => some (k, item)
  | _ => none

theorem Pc.guard_of_seen {p : Pc T} {l : List T} (h : p.seen = some l) : p.guard = 1 := by
  cases p <;> first | rfl | cases h

theorem Pc.guard_of_result {p : Pc T} {r : Nat × T} (h : p.result = some r) : p.guard = 1 := by
  cases p <;> first | rfl | cases h

structure Inv (ch : Channel m) (w : World n m C T) : Prop where
  sched : Sched.Inv w.sys
  /-- At most one task holds a guard. -/
  guard : ∃ k, Tally (fun t => (w.pc t).guard) k ∧ (w.sys.sems ch.queue).count + k = 1
  free : 0 ≤ (w.sys.sems ch.queue).count
  /-- Every unit has its item. -/
  tokens : ∃ k, Tally (fun t => (w.pc t).owed) k ∧ (w.sys.sems ch.items).count.toNat + k ≤ w.queue.length
  isize : -2 ^ 63 ≤ (w.sys.sems ch.items).count
  seen : ∀ t l, (w.pc t).seen = some l → l = w.queue
  fifo : w.appended = w.removed ++ w.queue
  result : ∀ t k item, (w.pc t).result = some (k, item) → w.removed[k]? = some item ∧ k ∉ w.returned.map Prod.fst
  returned : ∀ k item, (k, item) ∈ w.returned → w.removed[k]? = some item
  once : (w.returned.map Prod.fst).Nodup
  noPanic : ∀ t, w.pc t ≠ .panicked

/-- What one task does to the channel in one step. -/
structure Moved (ch : Channel m) (t : TaskRef n) (w w' : World n m C T) : Prop where
  sched : Sched.Inv w'.sys
  others : ∀ u, u ≠ t → w'.pc u = w.pc u
  guard : (w'.sys.sems ch.queue).count + (w'.pc t).guard = (w.sys.sems ch.queue).count + (w.pc t).guard
  free : 0 ≤ (w'.sys.sems ch.queue).count
  tokens : (w'.sys.sems ch.items).count.toNat + (w'.pc t).owed + w.queue.length ≤
    (w.sys.sems ch.items).count.toNat + (w.pc t).owed + w'.queue.length
  isize : -2 ^ 63 ≤ (w'.sys.sems ch.items).count
  /-- Only the holder of the guard changes what the guard protects. -/
  excl : (w.pc t).guard = 1 ∨ w'.queue = w.queue ∧ w'.returned = w.returned
  seen : ∀ l, (w'.pc t).seen = some l → l = w'.queue
  fifo : w'.appended = w'.removed ++ w'.queue
  grows : w.removed <+: w'.removed
  result : ∀ k item, (w'.pc t).result = some (k, item) → w'.removed[k]? = some item ∧ k ∉ w'.returned.map Prod.fst
  returned : ∀ k item, (k, item) ∈ w'.returned → w'.removed[k]? = some item
  once : (w'.returned.map Prod.fst).Nodup
  noPanic : w'.pc t ≠ .panicked

variable {ch : Channel m} {w w' : World n m C T} {t : TaskRef n}

/-- While one task holds a guard no other does. -/
theorem Inv.alone (h : Inv ch w) (ht : (w.pc t).guard = 1) {u : TaskRef n} (hne : u ≠ t) : (w.pc u).guard = 0 := by
  obtain ⟨k, hk, hsum⟩ := h.guard
  have hpair := hk.pair_le hne
  have hfree := h.free
  simp only [ht] at hpair
  omega

theorem Inv.moved (h : Inv ch w) (hm : Moved ch t w w') : Inv ch w' where
  sched := hm.sched
  guard := by
    obtain ⟨k, hk, hsum⟩ := h.guard
    obtain ⟨k', hk', hsum'⟩ := hk.update t (g := fun u => (w'.pc u).guard) fun u hu => by rw [hm.others u hu]
    have hguard := hm.guard
    exact ⟨k', hk', by omega⟩
  free := hm.free
  tokens := by
    obtain ⟨k, hk, hsum⟩ := h.tokens
    obtain ⟨k', hk', hsum'⟩ := hk.update t (g := fun u => (w'.pc u).owed) fun u hu => by rw [hm.others u hu]
    have htokens := hm.tokens
    exact ⟨k', hk', by omega⟩
  isize := hm.isize
  seen := by
    intro u l hl
    by_cases hu : u = t
    · subst hu
      exact hm.seen l hl
    · rw [hm.others u hu] at hl
      rcases hm.excl with hg | ⟨hq, -⟩
      · have h₀ := h.alone hg hu
        rw [Pc.guard_of_seen hl] at h₀
        cases h₀
      · rw [hq]
        exact h.seen u l hl
  fifo := hm.fifo
  result := by
    intro u k item hr
    by_cases hu : u = t
    · subst hu
      exact hm.result k item hr
    · rw [hm.others u hu] at hr
      rcases hm.excl with hg | ⟨-, hret⟩
      · have h₀ := h.alone hg hu
        rw [Pc.guard_of_result hr] at h₀
        cases h₀
      · obtain ⟨hk, hnot⟩ := h.result u k item hr
        obtain ⟨rest, hrest⟩ := hm.grows
        rw [hret, ← hrest]
        refine ⟨?_, hnot⟩
        rw [List.getElem?_append_left (List.getElem?_eq_some_iff.1 hk).1, hk]
  returned := hm.returned
  once := hm.once
  noPanic := by
    intro u
    by_cases hu : u = t
    · subst hu
      exact hm.noPanic
    · rw [hm.others u hu]
      exact h.noPanic u

/-! ## Each step keeps it -/

/-- A step that moves the task without touching the queue or the logs. -/
theorem Inv.move (h : Inv ch w) {s : Sys n m C} {p : Pc T} (hsched : Sched.Inv s)
    (hguard : (s.sems ch.queue).count + p.guard = (w.sys.sems ch.queue).count + (w.pc t).guard)
    (hfree : 0 ≤ (s.sems ch.queue).count)
    (htokens : (s.sems ch.items).count.toNat + p.owed ≤ (w.sys.sems ch.items).count.toNat + (w.pc t).owed)
    (hisize : -2 ^ 63 ≤ (s.sems ch.items).count) (hseen : ∀ l, p.seen = some l → l = w.queue)
    (hresult : ∀ r, p.result = some r → (w.pc t).result = some r) (hp : p ≠ .panicked) :
    Inv ch { w with sys := s, pc := Function.update w.pc t p } := by
  apply h.moved (t := t)
  exact {
    sched := hsched
    others := fun u hu => Function.update_of_ne hu _ _
    guard := by simpa using hguard
    free := hfree
    tokens := by simpa using htokens
    isize := hisize
    excl := .inr ⟨rfl, rfl⟩
    seen := by simpa using hseen
    fifo := h.fifo
    grows := List.prefix_rfl
    result := by
      intro k item hr
      simp only [Function.update_self] at hr
      exact h.result t k item (hresult _ hr)
    returned := h.returned
    once := h.once
    noPanic := by simpa using hp }

/-- A step of the scheduler that leaves both counts and the task's position alone. -/
theorem Inv.stay (h : Inv ch w) {s : Sys n m C} (hsched : Sched.Inv s)
    (hq : (s.sems ch.queue).count = (w.sys.sems ch.queue).count)
    (hi : (s.sems ch.items).count = (w.sys.sems ch.items).count) (t : TaskRef n) : Inv ch { w with sys := s } := by
  have hmove := h.move (t := t) (p := w.pc t) hsched (by rw [hq]) (by rw [hq]; exact h.free) (by rw [hi])
    (by rw [hi]; exact h.isize) (h.seen t) (fun r hr => hr) (h.noPanic t)
  rwa [Function.update_eq_self] at hmove

variable {c : Fin n}

theorem send_channel (h : Inv ch w) {item : T} (hs : w.send c item = some w') : Inv ch w' := by
  unfold World.send at hs
  split at hs
  · next hpc =>
    cases hs
    exact h.move h.sched (by rw [hpc]; rfl) h.free (by rw [hpc]; rfl) h.isize nofun nofun nofun
  · cases hs

theorem recv_channel (h : Inv ch w) (hs : w.recv c = some w') : Inv ch w' := by
  unfold World.recv at hs
  split at hs
  · next hpc =>
    cases hs
    exact h.move h.sched (by rw [hpc]; rfl) h.free (by rw [hpc]; rfl) h.isize nofun nofun nofun
  · cases hs

theorem load_channel (h : Inv ch w) (hs : w.load c = some w') : Inv ch w' := by
  unfold World.load at hs
  split at hs
  · next item hpc =>
    cases hs
    exact h.move h.sched (by rw [hpc]; rfl) h.free (by rw [hpc]; rfl) h.isize (fun l hl => by cases hl; rfl) nofun nofun
  · next hpc =>
    cases hs
    exact h.move h.sched (by rw [hpc]; rfl) h.free (by rw [hpc]; rfl) h.isize (fun l hl => by cases hl; rfl) nofun nofun
  · cases hs

theorem lock_channel (h : Inv ch w) (hs : w.lock ch c = some w') : Inv ch w' := by
  obtain ⟨s, hs₁, hs⟩ := Option.bind_eq_some_iff.1 hs
  have hsched := step_inv h.sched hs₁
  have hq := wait_count h.sched hs₁
  have hi := other_count h.sched (uses_wait ch.ne.symm) hs₁
  have hfree := h.free
  by_cases hpos : 0 < (w.sys.sems ch.queue).count
  · -- the unit is taken: the task holds the guard
    rw [if_pos hpos] at hq
    simp only [hpos, decide_true, if_true] at hs
    split at hs
    · next item hpc =>
      cases hs
      exact h.move hsched (by rw [hpc, hq]; simp [Pc.guard]) (by omega) (by rw [hpc, hi]; rfl) (by rw [hi]; exact h.isize)
        nofun nofun nofun
    · next hpc =>
      cases hs
      exact h.move hsched (by rw [hpc, hq]; simp [Pc.guard]) (by omega) (by rw [hpc, hi]; rfl) (by rw [hi]; exact h.isize)
        nofun nofun nofun
    · cases hs
  · rw [if_neg hpos, sub_zero] at hq
    simp only [hpos, decide_false, Bool.false_eq_true, if_false] at hs
    split at hs
    · cases hs
      exact h.stay hsched hq hi (w.task c)
    · cases hs
      exact h.stay hsched hq hi (w.task c)
    · cases hs

theorem wait_channel (h : Inv ch w) (hs : w.wait ch c = some w') : Inv ch w' := by
  obtain ⟨s, hs₁, hs⟩ := Option.bind_eq_some_iff.1 hs
  have hsched := step_inv h.sched hs₁
  have hi := wait_count h.sched hs₁
  have hq := other_count h.sched (uses_wait ch.ne) hs₁
  have hisize := h.isize
  by_cases hpos : 0 < (w.sys.sems ch.items).count
  · -- one unit less, one receiver more that took one
    rw [if_pos hpos] at hi
    simp only [hpos, decide_true, if_true] at hs
    split at hs
    · next hpc =>
      cases hs
      exact h.move hsched (by rw [hpc, hq]; rfl) (by rw [hq]; exact h.free) (by rw [hpc, hi]; simp only [Pc.owed]; omega)
        (by omega) nofun nofun nofun
    · cases hs
  · rw [if_neg hpos, sub_zero] at hi
    simp only [hpos, decide_false, Bool.false_eq_true, if_false] at hs
    split at hs
    · cases hs
      exact h.stay hsched hq hi (w.task c)
    · cases hs

theorem post_channel (h : Inv ch w) (hs : w.post ch c = some w') : Inv ch w' := by
  obtain ⟨s, hs₁, hs⟩ := Option.bind_eq_some_iff.1 hs
  have hq := other_count h.sched (uses_post ch.ne) hs₁
  have hi := post_count h.sched hs₁
  have hle := toNat_bmod_le h.isize
  split at hs
  · next hpc =>
    cases hs
    exact h.move (step_inv h.sched hs₁) (by rw [hpc, hq]; rfl) (by rw [hq]; exact h.free)
      (by rw [hpc, hi]; exact hle) (by rw [hi]; exact le_bmod _) nofun nofun nofun
  · cases hs

/-- The holder of the guard gives the mutex its unit back. -/
theorem unlock_count (h : Inv ch w) {s : Sys n m C} (hs : w.sys.step c (.call (.semPost ch.queue)) = some s)
    (hg : (w.pc t).guard = 1) : (s.sems ch.queue).count = (w.sys.sems ch.queue).count + 1 := by
  obtain ⟨k, hk, hsum⟩ := h.guard
  have hle := hk.le t
  have hfree := h.free
  rw [post_count h.sched hs]
  simp only [hg] at hle
  exact Int.bmod_eq_of_le (by omega) (by omega)

theorem unlock_channel (h : Inv ch w) (hs : w.unlock ch c = some w') : Inv ch w' := by
  obtain ⟨s, hs₁, hs⟩ := Option.bind_eq_some_iff.1 hs
  have hsched := step_inv h.sched hs₁
  have hi := other_count h.sched (uses_post ch.ne.symm) hs₁
  have hfree := h.free
  split at hs
  · next hpc =>
    cases hs
    have hq := unlock_count h hs₁ (t := w.task c) (by rw [hpc]; rfl)
    exact h.move hsched (by rw [hpc, hq]; simp [Pc.guard]) (by omega) (by rw [hpc, hi]; rfl) (by rw [hi]; exact h.isize)
      nofun nofun nofun
  · next k item hpc =>
    cases hs
    have hq := unlock_count h hs₁ (t := w.task c) (by rw [hpc]; rfl)
    obtain ⟨hk, hnot⟩ := h.result (w.task c) k item (by rw [hpc]; rfl)
    apply h.moved (t := w.task c)
    exact {
      sched := hsched
      others := fun u hu => Function.update_of_ne hu _ _
      guard := by simp [World.setPc, hpc, hq, Pc.guard]
      free := by simpa [hq] using by omega
      tokens := by simp [World.setPc, hpc, hi, Pc.owed]
      isize := by simpa [hi] using h.isize
      excl := .inl (by rw [hpc]; rfl)
      seen := by simp [World.setPc, Pc.seen]
      fifo := h.fifo
      grows := List.prefix_rfl
      result := by simp [World.setPc, Pc.result]
      returned := by
        intro k' item' hmem
        rcases List.mem_append.1 hmem with hmem | hmem
        · exact h.returned k' item' hmem
        · cases List.mem_singleton.1 hmem
          exact hk
      once := by
        rw [List.map_append, List.map_singleton, ← List.concat_eq_append]
        exact h.once.concat hnot
      noPanic := by simp [World.setPc] }
  · cases hs

/-- A receiver that holds the guard and took a unit finds an item. -/
theorem Inv.queue_pos (h : Inv ch w) (ht : (w.pc t).owed = 1) : 0 < w.queue.length := by
  obtain ⟨k, hk, hsum⟩ := h.tokens
  have hle := hk.le t
  simp only [ht] at hle
  omega

theorem store_channel (h : Inv ch w) (hs : w.store c = some w') : Inv ch w' := by
  unfold World.store at hs
  split at hs
  · next item seen hpc =>
    cases hs
    obtain rfl : seen = w.queue := h.seen (w.task c) seen (by rw [hpc]; rfl)
    apply h.moved (t := w.task c)
    exact {
      sched := h.sched
      others := fun u hu => Function.update_of_ne hu _ _
      guard := by simp [World.setPc, hpc, Pc.guard]
      free := h.free
      tokens := by simp [World.setPc, hpc, Pc.owed]; omega
      isize := h.isize
      excl := .inl (by rw [hpc]; rfl)
      seen := by simp [World.setPc, Pc.seen]
      fifo := by simp [World.setPc, h.fifo]
      grows := List.prefix_rfl
      result := by simp [World.setPc, Pc.result]
      returned := h.returned
      once := h.once
      noPanic := by simp [World.setPc] }
  · next hpc =>
    -- the queue cannot have been empty
    have hpos := h.queue_pos (t := w.task c) (by rw [hpc]; rfl)
    rw [← h.seen (w.task c) [] (by rw [hpc]; rfl)] at hpos
    cases hpos
  · next item rest hpc =>
    cases hs
    have hqueue := h.seen (w.task c) _ (by rw [hpc]; rfl)
    have hnew : w.removed.length ∉ w.returned.map Prod.fst := by
      intro hmem
      obtain ⟨⟨k, item'⟩, hret, hk⟩ := List.mem_map.1 hmem
      have hlt := (List.getElem?_eq_some_iff.1 (h.returned k item' hret)).1
      simp only at hk
      omega
    apply h.moved (t := w.task c)
    exact {
      sched := h.sched
      others := fun u hu => Function.update_of_ne hu _ _
      guard := by simp [World.setPc, hpc, Pc.guard]
      free := h.free
      tokens := by simp [World.setPc, hpc, Pc.owed, ← hqueue]; omega
      isize := h.isize
      excl := .inl (by rw [hpc]; rfl)
      seen := by simp [World.setPc, Pc.seen]
      fifo := by simp [World.setPc, h.fifo, ← hqueue]
      grows := List.prefix_append _ _
      result := by
        intro k item' hr
        simp only [World.setPc, Function.update_self, Pc.result, Option.some.injEq, Prod.mk.injEq] at hr
        obtain ⟨rfl, rfl⟩ := hr
        exact ⟨by simp, hnew⟩
      returned := by
        intro k item' hret
        have hk := h.returned k item' hret
        rw [List.getElem?_append_left (List.getElem?_eq_some_iff.1 hk).1, hk]
      once := h.once
      noPanic := by simp [World.setPc] }
  · cases hs

/-- **One step of one CPU** keeps the invariant. -/
theorem step_channel (h : Inv ch w) {a : Act m C T} (hs : w.step ch c a = some w') : Inv ch w' := by
  cases a with
  | send item =>
    simp only [World.step, Option.ite_none_right_eq_some] at hs
    exact send_channel h hs.2
  | recv =>
    simp only [World.step, Option.ite_none_right_eq_some] at hs
    exact recv_channel h hs.2
  | lock => exact lock_channel h hs
  | unlock => exact unlock_channel h hs
  | wait => exact wait_channel h hs
  | post => exact post_channel h hs
  | load =>
    simp only [World.step, Option.ite_none_right_eq_some] at hs
    exact load_channel h hs.2
  | store =>
    simp only [World.step, Option.ite_none_right_eq_some] at hs
    exact store_channel h hs.2
  | sched e =>
    simp only [World.step, Option.ite_none_left_eq_some, Bool.or_eq_true, not_or, Bool.not_eq_true] at hs
    obtain ⟨⟨hq, hi⟩, hs⟩ := hs
    obtain ⟨s, hs₁, rfl⟩ := Option.map_eq_some_iff.1 hs
    exact h.stay (step_inv h.sched hs₁) (other_count h.sched hq hs₁) (other_count h.sched hi hs₁) (w.task c)

theorem boot_channel (ch : Channel m) (counts : Fin m → Int) (regs : Fin n → C) (zero : C) :
    Inv ch (World.boot ch counts regs zero : World n m C T) where
  sched := boot_inv _ regs zero
  guard := ⟨0, Tally.zero fun t => rfl, by simp [World.boot, Sys.boot, Function.update_of_ne ch.ne]⟩
  free := by simp [World.boot, Sys.boot, Function.update_of_ne ch.ne]
  tokens := ⟨0, Tally.zero fun t => rfl, by simp [World.boot, Sys.boot]⟩
  isize := by simp [World.boot, Sys.boot]
  seen := by simp [World.boot, Pc.seen]
  fifo := rfl
  result := by simp [World.boot, Pc.result]
  returned := by simp [World.boot]
  once := by simp [World.boot]
  noPanic := by simp [World.boot]

theorem run_channel (as : List (Fin n × Act m C T)) : ∀ {w w' : World n m C T}, Inv ch w → w.run ch as = some w' →
    Inv ch w' := by
  induction as with
  | nil =>
    intro w w' h hs
    cases hs
    exact h
  | cons ca as ih =>
    intro w w' h hs
    obtain ⟨w₁, hs₁, hs₂⟩ := Option.bind_eq_some_iff.1 hs
    exact ih (step_channel h hs₁) hs₂

/-- **Channel delivery**, for every number of tasks and CPUs and every interleaving: no `recv` misses its item, items are
removed in the order in which they were appended, each completed `recv` returned a removed item of its own, and no more
`recv`s completed than appends. -/
theorem channel_delivery (ch : Channel m) (counts : Fin m → Int) (regs : Fin n → C) (zero : C)
    (as : List (Fin n × Act m C T)) {w : World n m C T} (hs : (World.boot ch counts regs zero).run ch as = some w) :
    (∀ t, w.pc t ≠ .panicked) ∧
    w.removed <+: w.appended ∧
    (w.returned.map Prod.fst).Nodup ∧
    (∀ k item, (k, item) ∈ w.returned → w.appended[k]? = some item) ∧
    w.returned.length ≤ w.appended.length := by
  have h := run_channel as (boot_channel ch counts regs zero) hs
  have happ : ∀ k item, (k, item) ∈ w.returned → w.appended[k]? = some item := by
    intro k item hret
    have hk := h.returned k item hret
    rw [h.fifo, List.getElem?_append_left (List.getElem?_eq_some_iff.1 hk).1, hk]
  refine ⟨h.noPanic, ?_, h.once, happ, ?_⟩
  · rw [h.fifo]
    exact List.prefix_append _ _
  · have hsub : w.returned.map Prod.fst ⊆ List.range w.appended.length := by
      intro k hk
      obtain ⟨⟨k, item⟩, hret, rfl⟩ := List.mem_map.1 hk
      exact List.mem_range.2 (List.getElem?_eq_some_iff.1 (happ k item hret)).1
    simpa using (h.once.subperm hsub).length_le

local instance channel_cpus : NeZero 2 := ⟨by decide⟩

/-- Task 1 receives on CPU 0 and blocks; task 2, on CPU 1, sends and wakes it; task 1 goes on and returns the item. -/
def sendRecvRun : List (Fin 2 × Act 2 Nat Nat) :=
  let boot : List (Fin 2 × Act 2 Nat Nat) :=
    ([(0, .sched (.call .init)), (1, .sched (.call .initThisCpu)), (0, .sched (.call (.taskNew 0))),
      (0, .sched (.call (.taskNew 0))), (0, .sched (.call (.spawn 1))), (0, .sched (.call .yieldNow))] :
      List (Fin 2 × Act 2 Nat Nat)) ++
    (List.replicate 5 (0, .sched .advance) : List (Fin 2 × Act 2 Nat Nat)) ++
    ([(1, .sched (.call (.spawn 2))), (1, .sched (.call .yieldNow))] : List (Fin 2 × Act 2 Nat Nat)) ++
    (List.replicate 5 (1, .sched .advance) : List (Fin 2 × Act 2 Nat Nat))
  boot ++ ([(0, .recv), (0, .wait)] : List (Fin 2 × Act 2 Nat Nat)) ++
    (List.replicate 5 (0, .sched .advance) : List (Fin 2 × Act 2 Nat Nat)) ++
    ([(1, .send 7), (1, .lock), (1, .load), (1, .store), (1, .unlock), (1, .sched .advance), (1, .post),
      (1, .sched .advance), (1, .sched .advance), (0, .sched (.call .yieldNow))] : List (Fin 2 × Act 2 Nat Nat)) ++
    (List.replicate 5 (0, .sched .advance) : List (Fin 2 × Act 2 Nat Nat)) ++
    ([(0, .wait), (0, .lock), (0, .load), (0, .store), (0, .unlock)] : List (Fin 2 × Act 2 Nat Nat))

theorem channel_delivery_sendRecvRun :
    ∃ w : World 2 2 Nat Nat,
      (World.boot ⟨0, 1, by decide⟩ (fun _ => 0) (fun _ => 0) 0).run ⟨0, 1, by decide⟩ sendRecvRun = some w ∧
      w.returned = [(0, 7)] ∧ w.removed <+: w.appended ∧ w.returned.length ≤ w.appended.length ∧
      w.appended[0]? = some 7 := by
  have hrun : ((World.boot ⟨0, 1, by decide⟩ (fun _ => 0) (fun _ => 0) 0).run ⟨0, 1, by decide⟩ sendRecvRun).map
      World.returned = some [(0, 7)] := by decide +kernel
  obtain ⟨w, hw, hret⟩ := Option.map_eq_some_iff.1 hrun
  obtain ⟨-, hprefix, -, happ, hlen⟩ := channel_delivery _ _ _ _ sendRecvRun hw
  exact ⟨w, hw, hret, hprefix, hlen, happ 0 7 (by simp [hret])⟩

end Invariant

end Koros.Sched.Mpmc
