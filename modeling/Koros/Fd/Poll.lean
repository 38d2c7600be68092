import Koros.Fd.Open
import Koros.Sched.Timeout

/-!
# Waiting for descriptors

`sys_ppoll` and `sys_select` of `korix/src/syscall/mod.rs`, as loops over rounds: each looks at the descriptors, then at the
clock. `sys_ppoll` computes its deadline once; `sys_select` computes it anew in each round, from the time of the round.

- `sysPpoll_idle`, `selectLoop_idle`: without a ready descriptor both are a sequence of checks (`checks`);
- `checks_eq_iff`: when two sequences of checks end alike;
- **`poll_timeouts_iff`**: when each call returns at its first check at or after the time of entry plus the timeout.
-/
set_option autoImplicit false

namespace Koros.Fd

open Koros.Sched

/-! ## What the calls do -/

/-- What a round finds: the descriptor table, the console (`rx_has_data`), the sockets that can be read (`net::has_data`),
and the clock, when `poll_deadline` reads it and when the deadline is compared. -/
structure Round where
  table : Table
  rxHasData : Bool
  hasData : Nat → Bool
  start : Duration
  now : Duration

namespace Round

/-- The console is at descriptor zero. -/
def readable (r : Round) (fd : Nat) : Bool := (fd == 0 && r.rxHasData) || (r.table.sockets[fd]?).any r.hasData

def writable (r : Round) (fd : Nat) : Bool :=
  (r.table.sockets[fd]?).isSome || (r.table.files[fd]?).isSome ||
    (r.table.stdioTarget fd == some 1 || r.table.stdioTarget fd == some 2)

end Round

inductive Outcome where
  /-- Returns before the first round. -/
  | early (value : Int)
  /-- Returns the number of ready descriptors, or an error while it reports them. -/
  | ready (value : Int)
  /-- Returns zero at the check of this number. -/
  | timedOut (check : Nat)
  /-- Still waits after the rounds. -/
  | waits
  | panics
deriving DecidableEq, Repr

/-! ### `sys_ppoll` -/

/-- `struct pollfd`. -/
structure PollFd where
  fd : BitVec 32
  events : BitVec 16
  revents : BitVec 16
deriving DecidableEq, Repr

def pollin : BitVec 16 := 0x001

/-- The `revents` of a round. -/
def Round.revents (r : Round) (p : PollFd) : BitVec 16 :=
  if p.events &&& pollin ≠ 0 ∧ 0 ≤ p.fd.toInt ∧ r.readable p.fd.toNat then pollin else 0

/-- One round over the array: the number of ready descriptors and the array. -/
def Round.ppoll (r : Round) (fds : List PollFd) : Nat × List PollFd :=
  let fds := fds.map fun p => { p with revents := r.revents p }
  ((fds.filter fun p => p.revents ≠ 0).length, fds)

/-- The rounds from number `k` on. -/
def ppollLoop (deadline : Option Duration) : Nat → List PollFd → List Round → Outcome × List PollFd
  | _, fds, [] => (.waits, fds)
  | k, fds, r :: rounds =>
    let (ready, fds) := r.ppoll fds
    if ready ≠ 0 then (.ready ready, fds)
    else if overdue deadline r.now then (.timedOut k, fds)
    else ppollLoop deadline (k + 1) fds rounds

/-- `sys_ppoll`, entered at time `entry`. The array is `none` when it does not lie in writable user memory. -/
def sysPpoll (entry : Duration) (fds : Option (List PollFd)) (nfds : Nat) (tmo : TimeSpec) (rounds : List Round) :
    Outcome × Option (List PollFd) :=
  if nfds = 0 then (.early 0, fds)
  else
    match pollDeadline entry tmo with
    | none => (.panics, fds)
    | some deadline =>
      match u64 (nfds * 8), fds with
      | none, _ => (.early (-22), fds)
      | some _, none => (.early (-14), none)
      | some _, some array => ((ppollLoop deadline 0 array rounds).1, some (ppollLoop deadline 0 array rounds).2)

/-! ### `sys_select` -/

/-- User memory in words: what can be read, and where a write succeeds. -/
structure Words where
  word : Nat → Option (BitVec 64)
  writable : Nat → Bool

/-- `write_user`. -/
def Words.write (m : Words) (address : Nat) (value : BitVec 64) : Option Words :=
  if m.writable address then some { m with word := Function.update m.word address (some value) } else none

structure SelectArgs where
  nfds : Nat
  readfds : Nat
  writefds : Nat
  exceptfds : Nat

namespace SelectArgs

def wordCount (a : SelectArgs) : Nat := divCeil a.nfds 64

/-- The words of a set, zero where there is none. -/
def requested (m : Words) (set word : Nat) : BitVec 64 :=
  if set = 0 then 0 else (m.word ((set + word * 8) % 2 ^ 64)).getD 0

/-- The bit of a descriptor in a set. -/
def asks (m : Words) (set fd : Nat) : Bool := (requested m set (fd / 64)).getLsbD (fd % 64)

end SelectArgs

def Round.readReady (r : Round) (m : Words) (a : SelectArgs) (fd : Nat) : Bool :=
  SelectArgs.asks m a.readfds fd && r.readable fd

def Round.writeReady (r : Round) (m : Words) (a : SelectArgs) (fd : Nat) : Bool :=
  SelectArgs.asks m a.writefds fd && r.writable fd

/-- The number of ready descriptors; one that can be read and written counts twice. -/
def Round.select (r : Round) (m : Words) (a : SelectArgs) : Nat :=
  ((List.range a.nfds).filter (r.readReady m a)).length + ((List.range a.nfds).filter (r.writeReady m a)).length

/-- The word of the ready descriptors below `nfds`. -/
def readyWord (ready : Nat → Bool) (nfds word : Nat) : BitVec 64 :=
  BitVec.ofNat 64 (∑ b ∈ Finset.range 64, if 64 * word + b < nfds ∧ ready (64 * word + b) then 2 ^ b else 0)

/-- A word of a result, unless the set is not given. -/
def storeWord (m : Words) (set word : Nat) (value : BitVec 64) : Option Words :=
  if set = 0 then some m else m.write ((set + word * 8) % 2 ^ 64) value

/-- The results from word `word` on, `count` of them; memory as it is when a write fails. -/
def storeResults (r : Round) (asked : Words) (a : SelectArgs) : (count word : Nat) → Words → Bool × Words
  | 0, _, m => (true, m)
  | k + 1, word, m =>
    match storeWord m a.readfds word (readyWord (r.readReady asked a) a.nfds word) with
    | none => (false, m)
    | some m =>
      match storeWord m a.writefds word (readyWord (r.writeReady asked a) a.nfds word) with
      | none => (false, m)
      | some m =>
        match storeWord m a.exceptfds word 0 with
        | none => (false, m)
        | some m => storeResults r asked a k (word + 1) m

/-- The rounds from number `k` on. -/
def selectLoop (m : Words) (a : SelectArgs) (timeout : TimeSpec) : Nat → List Round → Outcome × Words
  | _, [] => (.waits, m)
  | k, r :: rounds =>
    let ready := r.select m a
    if ready ≠ 0 then
      let (stored, m) := storeResults r m a a.wordCount 0 m
      (.ready (if stored then ready else -14), m)
    else
      match pollDeadline r.start timeout with
      | none => (.panics, m)
      | some deadline => if overdue deadline r.now then (.timedOut k, m) else selectLoop m a timeout (k + 1) rounds

/-- `sys_select`; `room` says for how many words the heap has the vectors. -/
def sysSelect (room : Nat → Bool) (m : Words) (a : SelectArgs) (timeout : TimeSpec) (rounds : List Round) :
    Outcome × Words :=
  if room a.wordCount then selectLoop m a timeout 0 rounds else (.panics, m)

/-! ## Sequences of checks -/

/-- The checks from number `k` on: each ends the call, by a panic (`none`) or because it is late enough, or goes on. -/
def checks (late : Round → Option Bool) : Nat → List Round → Outcome
  | _, [] => .waits
  | k, r :: rounds =>
    match late r with
    | none => .panics
    | some true => .timedOut k
    | some false => checks late (k + 1) rounds

section Checks

variable {late : Round → Option Bool} {b : Round → Bool}

theorem checks_timedOut_le : ∀ (rounds : List Round) {k i : Nat}, checks late k rounds = .timedOut i → k ≤ i
  | [], k, i, h => by cases h
  | r :: rounds, k, i, h => by
    rw [checks] at h
    split at h
    · cases h
    · cases h
      exact Nat.le_refl k
    · exact Nat.le_of_succ_le (checks_timedOut_le rounds h)

theorem checks_ne_panics : ∀ (rounds : List Round) (k : Nat), checks (fun r => some (b r)) k rounds ≠ .panics
  | [], _ => nofun
  | r :: rounds, k => by
    rw [checks]
    cases b r with
    | false => exact checks_ne_panics rounds (k + 1)
    | true => nofun

/-- Checks that cannot panic end at the first one that is late enough. -/
theorem checks_eq_findIdx : ∀ (rounds : List Round) (k : Nat),
    checks (fun r => some (b r)) k rounds = (rounds.findIdx? b).elim .waits fun i => .timedOut (k + i)
  | [], _ => rfl
  | r :: rounds, k => by
    rw [checks, List.findIdx?_cons]
    cases hb : b r with
    | true => rfl
    | false =>
      have ih := checks_eq_findIdx rounds (k + 1)
      simp only [ih, Bool.false_eq_true, if_false]
      cases rounds.findIdx? b with
      | none => rfl
      | some i =>
        simp only [Option.elim_some, Option.map_some, Outcome.timedOut.injEq]
        omega

/-- Two sequences of checks end alike exactly when they agree up to the first check that is late enough. -/
theorem checks_eq_iff : ∀ (rounds : List Round) (k : Nat),
    checks late k rounds = checks (fun r => some (b r)) k rounds ↔
      ∀ before r after, rounds = before ++ r :: after → (∀ q ∈ before, b q = false) → late r = some (b r)
  | [], k => by
    refine ⟨fun _ before r after h => ?_, fun _ => rfl⟩
    simp at h
  | r :: rounds, k => by
    have ih := checks_eq_iff rounds (k + 1)
    have hlater : ∀ {l : Round → Option Bool}, checks l (k + 1) rounds ≠ .timedOut k := fun h =>
      Nat.not_succ_le_self k (checks_timedOut_le rounds h)
    constructor
    · intro h
      -- the first check first
      have hfirst : late r = some (b r) := by
        rw [checks, checks] at h
        cases hl : late r with
        | none =>
          cases hb : b r with
          | true => simp [hl, hb] at h
          | false =>
            simp only [hl, hb] at h
            exact absurd h.symm (checks_ne_panics rounds (k + 1))
        | some l =>
          cases l with
          | true =>
            cases hb : b r with
            | true => rfl
            | false =>
              simp only [hl, hb] at h
              exact absurd h.symm hlater
          | false =>
            cases hb : b r with
            | true =>
              simp only [hl, hb] at h
              exact absurd h hlater
            | false => rfl
      intro before q after hsplit hbefore
      cases before with
      | nil =>
        cases hsplit
        exact hfirst
      | cons r' before =>
        simp only [List.cons_append, List.cons.injEq] at hsplit
        obtain ⟨rfl, hrest⟩ := hsplit
        have hb : b r = false := hbefore r List.mem_cons_self
        rw [checks, checks, hfirst, hb] at h
        exact ih.1 h before q after hrest fun x hx => hbefore x (List.mem_cons_of_mem _ hx)
    · intro h
      have hfirst := h [] r rounds rfl (fun q hq => absurd hq List.not_mem_nil)
      rw [checks, checks, hfirst]
      cases hb : b r with
      | true => rfl
      | false =>
        refine ih.2 fun before q after hsplit hbefore => ?_
        refine h (r :: before) q after (by rw [hsplit, List.cons_append]) fun x hx => ?_
        rcases List.mem_cons.1 hx with rfl | hx
        · exact hb
        · exact hbefore x hx

end Checks

/-! ## Without a ready descriptor -/

/-- No descriptor of the array becomes ready. -/
def PpollIdle (fds : List PollFd) (rounds : List Round) : Prop := ∀ r ∈ rounds, ∀ p ∈ fds, r.revents p = 0

/-- No descriptor of the sets becomes ready. -/
def SelectIdle (m : Words) (a : SelectArgs) (rounds : List Round) : Prop :=
  ∀ r ∈ rounds, ∀ fd < a.nfds, r.readReady m a fd = false ∧ r.writeReady m a fd = false

theorem Round.ppoll_idle {r : Round} {fds : List PollFd} (h : ∀ p ∈ fds, r.revents p = 0) : (r.ppoll fds).1 = 0 := by
  unfold Round.ppoll
  simp only [List.length_eq_zero_iff, List.filter_eq_nil_iff, List.mem_map]
  rintro q ⟨p, hp, rfl⟩
  simp [h p hp]

/-- A round changes nothing that a later one reads. -/
theorem Round.ppoll_keeps {r q : Round} {fds : List PollFd} (h : ∀ p ∈ fds, q.revents p = 0) :
    ∀ p ∈ (r.ppoll fds).2, q.revents p = 0 := by
  unfold Round.ppoll
  simp only [List.mem_map]
  rintro p ⟨p', hp', rfl⟩
  exact h p' hp'

theorem Round.select_idle {r : Round} {m : Words} {a : SelectArgs}
    (h : ∀ fd < a.nfds, r.readReady m a fd = false ∧ r.writeReady m a fd = false) : r.select m a = 0 := by
  have hread : (List.range a.nfds).filter (r.readReady m a) = [] := by
    refine List.filter_eq_nil_iff.2 fun fd hfd => ?_
    rw [(h fd (List.mem_range.1 hfd)).1]
    exact Bool.false_ne_true
  have hwrite : (List.range a.nfds).filter (r.writeReady m a) = [] := by
    refine List.filter_eq_nil_iff.2 fun fd hfd => ?_
    rw [(h fd (List.mem_range.1 hfd)).2]
    exact Bool.false_ne_true
  rw [Round.select, hread, hwrite]
  rfl

theorem ppollLoop_idle (deadline : Option Duration) : ∀ (rounds : List Round) (k : Nat) (fds : List PollFd),
    PpollIdle fds rounds → (ppollLoop deadline k fds rounds).1 = checks (fun r => some (overdue deadline r.now)) k rounds
  | [], _, _, _ => rfl
  | r :: rounds, k, fds, h => by
    have hready := Round.ppoll_idle (h r List.mem_cons_self)
    rw [ppollLoop, checks]
    simp only [hready, ne_eq, not_true_eq_false, if_false]
    cases overdue deadline r.now with
    | true => rfl
    | false =>
      exact ppollLoop_idle deadline rounds (k + 1) _ fun q hq => Round.ppoll_keeps (h q (List.mem_cons_of_mem _ hq))

theorem selectLoop_idle (m : Words) (a : SelectArgs) (timeout : TimeSpec) : ∀ (rounds : List Round) (k : Nat),
    SelectIdle m a rounds → (selectLoop m a timeout k rounds).1 =
      checks (fun r => (pollDeadline r.start timeout).map fun deadline => overdue deadline r.now) k rounds
  | [], _, _ => rfl
  | r :: rounds, k, h => by
    have hready := Round.select_idle (h r List.mem_cons_self)
    rw [selectLoop, checks]
    simp only [hready, ne_eq, not_true_eq_false, if_false]
    cases pollDeadline r.start timeout with
    | none => rfl
    | some deadline =>
      simp only [Option.map_some]
      cases overdue deadline r.now with
      | true => rfl
      | false => exact selectLoop_idle m a timeout rounds (k + 1) fun q hq => h q (List.mem_cons_of_mem _ hq)

/-! ## The deadlines -/

/-- What is asked of a call that waits until the time `due`: it returns zero at its first check at or after it. -/
def timeoutAt (due : Nat) (rounds : List Round) : Outcome :=
  (rounds.findIdx? fun r => decide (due ≤ r.now.total)).elim .waits .timedOut

theorem timeoutAt_eq_checks (due : Nat) (rounds : List Round) :
    timeoutAt due rounds = checks (fun r => some (decide (due ≤ r.now.total))) 0 rounds := by
  rw [checks_eq_findIdx]
  unfold timeoutAt
  simp only [Nat.zero_add]

theorem timeoutAt_ne_early (due : Nat) (rounds : List Round) (value : Int) : timeoutAt due rounds ≠ .early value := by
  unfold timeoutAt
  cases rounds.findIdx? fun r => decide (due ≤ r.now.total) with
  | none => nofun
  | some i => nofun

theorem timeoutAt_ne_panics (due : Nat) (rounds : List Round) : timeoutAt due rounds ≠ .panics := by
  rw [timeoutAt_eq_checks]
  exact checks_ne_panics rounds 0

section Deadlines

variable {start now : Duration} {seconds nanos : BitVec 64}

theorem pollDeadline_of_le (hstart : start.Valid) (h : Duration.limit ≤ start.total + timeoutOf seconds nanos) :
    pollDeadline start (.words seconds nanos) = none := by
  by_cases hnew : timeoutOf seconds nanos < Duration.limit
  · obtain ⟨timeout, ht, hvalid, htotal⟩ := Duration.new_of_lt hnew
    have htotal : timeout.total = timeoutOf seconds nanos := htotal
    have hadd := Duration.add_of_le hstart hvalid (by rw [htotal]; exact h)
    simp only [pollDeadline, ht, Option.bind_eq_bind, Option.bind_some, hadd, Option.bind_none]
  · have hnone : Duration.new seconds.toNat (min nanos.toNat 1000000000) = none :=
      Duration.new_of_le (Nat.le_of_not_lt hnew)
    simp only [pollDeadline, hnone, Option.bind_eq_bind, Option.bind_none]

/-- The answer of a check whose deadline counts from `start`. -/
theorem late_eq_some_iff (hstart : start.Valid) (answer : Bool) :
    ((pollDeadline start (.words seconds nanos)).map fun deadline => overdue deadline now) = some answer ↔
      start.total + timeoutOf seconds nanos < Duration.limit ∧
        (start.total + timeoutOf seconds nanos ≤ now.total ↔ answer = true) := by
  by_cases hlt : start.total + timeoutOf seconds nanos < Duration.limit
  · obtain ⟨d, hd, htotal⟩ := (pollDeadline_iff hstart seconds nanos).2 hlt
    have hover : overdue (some d) now = true ↔ start.total + timeoutOf seconds nanos ≤ now.total := by
      rw [overdue_iff, ← htotal]
      simp
    rw [hd, Option.map_some, Option.some.injEq, ← hover]
    cases overdue (some d) now <;> cases answer <;> simp [hlt]
  · rw [pollDeadline_of_le hstart (Nat.le_of_not_lt hlt)]
    simp [hlt]

end Deadlines

/-- The checks of `sys_ppoll`, after its deadline is computed. -/
theorem ppollLoop_some (d : Duration) {fds : List PollFd} {rounds : List Round} (hidle : PpollIdle fds rounds) :
    (ppollLoop (some d) 0 fds rounds).1 = timeoutAt d.total rounds := by
  have hlate : (fun r : Round => some (overdue (some d) r.now)) = fun r => some (decide (d.total ≤ r.now.total)) := by
    funext r
    rw [overdue, Option.any_some]
  rw [timeoutAt_eq_checks, ppollLoop_idle (some d) rounds 0 fds hidle, hlate]

section Calls

variable {entry : Duration} {seconds nanos : BitVec 64} {rounds : List Round}

/-- `sys_ppoll` on an array in user memory, before a deadline that does not overflow. -/
theorem sysPpoll_idle (hentry : entry.Valid) {fds : List PollFd} (hne : fds ≠ []) (hfits : fds.length * 8 < 2 ^ 64)
    (hidle : PpollIdle fds rounds) (hlt : entry.total + timeoutOf seconds nanos < Duration.limit) :
    (sysPpoll entry (some fds) fds.length (.words seconds nanos) rounds).1 =
      timeoutAt (entry.total + timeoutOf seconds nanos) rounds := by
  have hlen : fds.length ≠ 0 := fun h => hne (List.length_eq_zero_iff.1 h)
  obtain ⟨d, hd, htotal⟩ := (pollDeadline_iff hentry seconds nanos).2 hlt
  have hcall : (sysPpoll entry (some fds) fds.length (.words seconds nanos) rounds).1 =
      (ppollLoop (some d) 0 fds rounds).1 := by
    rw [sysPpoll, if_neg hlen, hd, u64_of_lt hfits]
  rw [hcall, ppollLoop_some d hidle, htotal]

theorem sysPpoll_panics (hentry : entry.Valid) {fds : Option (List PollFd)} {nfds : Nat} (hne : nfds ≠ 0)
    (hle : Duration.limit ≤ entry.total + timeoutOf seconds nanos) :
    (sysPpoll entry fds nfds (.words seconds nanos) rounds).1 = .panics := by
  rw [sysPpoll, if_neg hne, pollDeadline_of_le hentry hle]

theorem sysPpoll_iff (hentry : entry.Valid) {fds : List PollFd} (hfits : fds.length * 8 < 2 ^ 64)
    (hidle : PpollIdle fds rounds) :
    (sysPpoll entry (some fds) fds.length (.words seconds nanos) rounds).1 =
        timeoutAt (entry.total + timeoutOf seconds nanos) rounds ↔
      fds ≠ [] ∧ entry.total + timeoutOf seconds nanos < Duration.limit := by
  constructor
  · intro h
    have hne : fds ≠ [] := by
      rintro rfl
      exact timeoutAt_ne_early _ _ _ h.symm
    refine ⟨hne, Nat.lt_of_not_le fun hle => ?_⟩
    rw [sysPpoll_panics hentry (fun h => hne (List.length_eq_zero_iff.1 h)) hle] at h
    exact timeoutAt_ne_panics _ _ h.symm
  · exact fun h => sysPpoll_idle hentry h.1 hfits hidle h.2

theorem sysSelect_iff {due : Nat} (hstart : ∀ r ∈ rounds, r.start.Valid) (room : Nat → Bool) {m : Words} {a : SelectArgs}
    (hidle : SelectIdle m a rounds) :
    (sysSelect room m a (.words seconds nanos) rounds).1 = timeoutAt due rounds ↔
      room a.wordCount = true ∧ ∀ before r after, rounds = before ++ r :: after → (∀ q ∈ before, q.now.total < due) →
        r.start.total + timeoutOf seconds nanos < Duration.limit ∧
          (r.start.total + timeoutOf seconds nanos ≤ r.now.total ↔ due ≤ r.now.total) := by
  unfold sysSelect
  by_cases hroom : room a.wordCount = true
  · rw [if_pos hroom, selectLoop_idle m a _ rounds 0 hidle, timeoutAt_eq_checks, checks_eq_iff]
    simp only [hroom, true_and, decide_eq_false_iff_not, Nat.not_le]
    refine forall_congr' fun before => forall_congr' fun r => forall_congr' fun after => ?_
    refine forall_congr' fun hsplit => forall_congr' fun _ => ?_
    have hr : r ∈ rounds := by
      rw [hsplit]
      exact List.mem_append_right _ List.mem_cons_self
    rw [late_eq_some_iff (hstart r hr), decide_eq_true_iff]
  · rw [if_neg hroom]
    exact ⟨fun h => absurd h.symm (timeoutAt_ne_panics _ _), fun h => absurd h.1 hroom⟩

end Calls

/-- **Timeouts**: for descriptors of which none becomes ready, when `sys_ppoll` and `sys_select` return zero at their first
check at or after the time of entry plus the timeout, over any readings of the clock. -/
theorem poll_timeouts_iff {entry : Duration} (hentry : entry.Valid) (seconds nanos : BitVec 64) {rounds : List Round}
    (hstart : ∀ r ∈ rounds, r.start.Valid) {fds : List PollFd} (hfits : fds.length * 8 < 2 ^ 64)
    (hppoll : PpollIdle fds rounds) (room : Nat → Bool) {m : Words} {a : SelectArgs} (hselect : SelectIdle m a rounds) :
    ((sysPpoll entry (some fds) fds.length (.words seconds nanos) rounds).1 =
        timeoutAt (entry.total + timeoutOf seconds nanos) rounds ↔
      fds ≠ [] ∧ entry.total + timeoutOf seconds nanos < Duration.limit) ∧
    ((sysSelect room m a (.words seconds nanos) rounds).1 = timeoutAt (entry.total + timeoutOf seconds nanos) rounds ↔
      room a.wordCount = true ∧ ∀ before r after, rounds = before ++ r :: after →
        (∀ q ∈ before, q.now.total < entry.total + timeoutOf seconds nanos) →
        r.start.total + timeoutOf seconds nanos < Duration.limit ∧
          (r.start.total + timeoutOf seconds nanos ≤ r.now.total ↔
            entry.total + timeoutOf seconds nanos ≤ r.now.total)) :=
  ⟨sysPpoll_iff hentry hfits hppoll, sysSelect_iff hstart room hselect⟩

/-- A round in which nothing is to be read, by a process without open files. -/
def quietRound (start now : Nat) : Round := ⟨⟨∅, ∅, ∅, ∅⟩, false, fun _ => false, ⟨start, 0⟩, ⟨now, 0⟩⟩

/-- Descriptor zero, as an array and as a set at address 8. -/
def console : List PollFd := [⟨0, pollin, 0⟩]

def consoleSet : Words := ⟨fun address => if address = 8 then some 1 else none, fun _ => true⟩

def consoleArgs : SelectArgs := ⟨1, 8, 0, 0⟩

theorem console_idle (times : List (Nat × Nat)) :
    PpollIdle console (times.map fun t => quietRound t.1 t.2) ∧
      SelectIdle consoleSet consoleArgs (times.map fun t => quietRound t.1 t.2) := by
  constructor
  · intro r hr p hp
    obtain ⟨t, -, rfl⟩ := List.mem_map.1 hr
    rw [List.mem_singleton.1 hp]
    rfl
  · intro r hr fd hfd
    obtain ⟨t, -, rfl⟩ := List.mem_map.1 hr
    obtain rfl : fd = 0 := Nat.lt_one_iff.1 hfd
    exact ⟨rfl, rfl⟩

/-- A timeout of one second, that passes while the first round looks at the descriptors. -/
theorem poll_timeouts_one_round :
    (sysPpoll ⟨5, 0⟩ (some console) 1 (.words 1 0) [quietRound 5 6]).1 = .timedOut 0 ∧
      (sysSelect (fun _ => true) consoleSet consoleArgs (.words 1 0) [quietRound 5 6]).1 = .timedOut 0 := by
  obtain ⟨hppoll, hselect⟩ := console_idle [(5, 6)]
  have hstart : ∀ r ∈ [quietRound 5 6], r.start.Valid := by
    intro r hr
    rw [List.mem_singleton.1 hr]
    exact ⟨by decide, by decide⟩
  have hentry : (Duration.mk 5 0).Valid := ⟨by decide, by decide⟩
  obtain ⟨h₁, h₂⟩ := poll_timeouts_iff hentry 1 0 hstart (by decide) hppoll (fun _ => true) hselect
  have hdue : timeoutAt ((Duration.mk 5 0).total + timeoutOf 1 0) [quietRound 5 6] = .timedOut 0 := by decide +kernel
  rw [hdue] at h₁ h₂
  refine ⟨h₁.2 ⟨nofun, by decide +kernel⟩, h₂.2 ⟨rfl, fun before r after hsplit _ => ?_⟩⟩
  have hr : r ∈ [quietRound 5 6] := by
    rw [hsplit]
    exact List.mem_append_right _ List.mem_cons_self
  rw [List.mem_singleton.1 hr]
  decide +kernel

/-- A timeout of one second and two rounds, two seconds apart: `sys_ppoll` returns at the second check, which is late enough;
`sys_select` counts from the second round and waits on. Without descriptors `sys_ppoll` returns at once. -/
theorem select_outwaits_timeout :
    timeoutAt ((Duration.mk 0 0).total + timeoutOf 1 0) [quietRound 0 0, quietRound 2 2] = .timedOut 1 ∧
      PpollIdle console [quietRound 0 0, quietRound 2 2] ∧
      SelectIdle consoleSet consoleArgs [quietRound 0 0, quietRound 2 2] ∧
      (sysPpoll ⟨0, 0⟩ (some console) 1 (.words 1 0) [quietRound 0 0, quietRound 2 2]).1 = .timedOut 1 ∧
      (sysSelect (fun _ => true) consoleSet consoleArgs (.words 1 0) [quietRound 0 0, quietRound 2 2]).1 = .waits ∧
      (sysPpoll ⟨0, 0⟩ (some []) 0 (.words 1 0) [quietRound 0 0, quietRound 2 2]).1 = .early 0 := by
  obtain ⟨hppoll, hselect⟩ := console_idle [(0, 0), (2, 2)]
  exact ⟨by decide +kernel, hppoll, hselect, by decide +kernel, by decide +kernel, by decide +kernel⟩

end Koros.Fd
