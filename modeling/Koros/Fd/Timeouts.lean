import Koros.Fd.Poll
import Mathlib.Algebra.BigOperators.Fin

/-!
# Timeouts of the calls that wait

`sys_nanosleep`, `sys_ppoll` and `sys_select` for every `struct timespec` of a user: which times they compute without an
overflow, and that they do not return before these.

- `pollDeadline_eq_none_iff`: when `poll_deadline` panics;
- `sysPpoll_panics_iff`, `sysSelect_panics_iff`: when the calls do;
- `sysPpoll_timedOut`, `sysSelect_timedOut`: neither times out early;
- **`timeouts_iff`**: the three calls, with the runs of the scheduler.
-/
set_option autoImplicit false

namespace Koros.Fd

open Koros.Sched

/-! ## Deadlines -/

section Deadlines

variable {now start : Duration} {tmo : TimeSpec} {deadline : Option Duration}

theorem pollDeadline_eq_none_iff (hstart : start.Valid) : pollDeadline start tmo = none ↔ ¬ DeadlineFits start tmo := by
  unfold DeadlineFits
  cases tmo with
  | null => simp [pollDeadline, TimeSpec.timeout]
  | unreadable => simp [pollDeadline, TimeSpec.timeout]
  | words seconds nanos =>
    simp only [TimeSpec.timeout, Option.mem_some_iff, forall_eq']
    constructor
    · intro hnone hlt
      obtain ⟨d, hd, -⟩ := (pollDeadline_iff hstart seconds nanos).2 hlt
      rw [hnone] at hd
      cases hd
    · exact fun h => pollDeadline_of_le hstart (Nat.le_of_not_lt h)

/-- A deadline that is over is one whose timeout has passed since it was computed. -/
theorem timeout_of_overdue (hstart : start.Valid) (hd : pollDeadline start tmo = some deadline)
    (hover : overdue deadline now = true) : ∃ t ∈ tmo.timeout, start.total + t ≤ now.total := by
  obtain ⟨d, rfl, hle⟩ := overdue_iff.1 hover
  cases tmo with
  | null => cases hd
  | unreadable => cases hd
  | words seconds nanos =>
    have hlt : start.total + timeoutOf seconds nanos < Duration.limit := by
      refine Nat.lt_of_not_le fun hge => ?_
      rw [pollDeadline_of_le hstart hge] at hd
      cases hd
    obtain ⟨d', hd', htotal⟩ := (pollDeadline_iff hstart seconds nanos).2 hlt
    rw [hd] at hd'
    cases hd'
    exact ⟨_, rfl, by rw [← htotal]; exact hle⟩

/-- One that is not over has its timeout before it. -/
theorem not_overdue_iff (hstart : start.Valid) (hd : pollDeadline start tmo = some deadline) :
    overdue deadline now = false ↔ ∀ t ∈ tmo.timeout, now.total < start.total + t := by
  cases tmo with
  | null =>
    cases hd
    simp [overdue, TimeSpec.timeout]
  | unreadable =>
    cases hd
    simp [overdue, TimeSpec.timeout]
  | words seconds nanos =>
    have hlate := @late_eq_some_iff start now seconds nanos hstart false
    rw [hd, Option.map_some, Option.some.injEq] at hlate
    simp only [TimeSpec.timeout, Option.mem_some_iff, forall_eq', hlate, Bool.false_eq_true, iff_false, Nat.not_le]
    refine and_iff_right (Nat.lt_of_not_le fun hge => ?_)
    rw [pollDeadline_of_le hstart hge] at hd
    cases hd

end Deadlines

/-! ## `sys_ppoll` -/

section Ppoll

variable {entry : Duration} {tmo : TimeSpec} {fds : Option (List PollFd)} {nfds : Nat} {rounds : List Round}

theorem ppollLoop_ne_panics (deadline : Option Duration) (rounds : List Round) (k : Nat) (fds : List PollFd) :
    (ppollLoop deadline k fds rounds).1 ≠ .panics := by
  induction rounds generalizing k fds with
  | nil => simp [ppollLoop]
  | cons r rounds ih =>
    rw [ppollLoop]
    dsimp only
    split
    · simp
    split
    · simp
    · exact ih (k + 1) _

/-- The check at which the loop times out finds the deadline over. -/
theorem ppollLoop_timedOut {deadline : Option Duration} : ∀ {rounds : List Round} {k i : Nat} {fds : List PollFd},
    (ppollLoop deadline k fds rounds).1 = .timedOut i →
      ∃ j r, i = k + j ∧ rounds[j]? = some r ∧ overdue deadline r.now = true
  | [], _, _, _, h => by cases h
  | r :: rounds, k, i, fds, h => by
    rw [ppollLoop] at h
    dsimp only at h
    split at h
    · cases h
    split at h
    · rename_i hover
      cases h
      exact ⟨0, r, rfl, rfl, hover⟩
    · obtain ⟨j, q, hj, hq, hover⟩ := ppollLoop_timedOut h
      exact ⟨j + 1, q, by omega, hq, hover⟩

/-- After its deadline is computed the call does not panic. -/
theorem sysPpoll_panics_iff (hentry : entry.Valid) :
    (sysPpoll entry fds nfds tmo rounds).1 = .panics ↔ nfds ≠ 0 ∧ ¬ DeadlineFits entry tmo := by
  rw [← pollDeadline_eq_none_iff hentry]
  unfold sysPpoll
  by_cases hzero : nfds = 0
  · simp [hzero]
  rw [if_neg hzero]
  cases hd : pollDeadline entry tmo with
  | none => simp [hzero]
  | some deadline =>
    simp only [reduceCtorEq, and_false, iff_false]
    cases u64 (nfds * 8) with
    | none => simp
    | some bytes =>
      cases fds with
      | none => simp
      | some array => exact ppollLoop_ne_panics deadline rounds 0 array

theorem sysPpoll_timedOut {i : Nat} (hentry : entry.Valid) (h : (sysPpoll entry fds nfds tmo rounds).1 = .timedOut i) :
    ∃ r t, rounds[i]? = some r ∧ tmo.timeout = some t ∧ entry.total + t ≤ r.now.total := by
  unfold sysPpoll at h
  split at h
  · cases h
  split at h
  · cases h
  rename_i deadline hd
  split at h
  · cases h
  · cases h
  · obtain ⟨j, r, rfl, hr, hover⟩ := ppollLoop_timedOut h
    obtain ⟨t, ht, hle⟩ := timeout_of_overdue hentry hd hover
    exact ⟨r, t, by rw [Nat.zero_add]; exact hr, ht, hle⟩

end Ppoll

/-! ## `sys_select` -/

section Select

variable {m : Words} {a : SelectArgs} {tmo : TimeSpec} {rounds : List Round}

/-- The round finds no ready descriptor and its own deadline not over. -/
def Round.GoesOn (m : Words) (a : SelectArgs) (tmo : TimeSpec) (r : Round) : Prop :=
  r.select m a = 0 ∧ ∀ t ∈ tmo.timeout, r.now.total < r.start.total + t

/-- The deadline is a `Duration` in each round that the loop comes to and that finds no ready descriptor. -/
def SelectFits (m : Words) (a : SelectArgs) (tmo : TimeSpec) (rounds : List Round) : Prop :=
  ∀ before r after, rounds = before ++ r :: after → (∀ q ∈ before, q.GoesOn m a tmo) → r.select m a = 0 →
    DeadlineFits r.start tmo

theorem SelectFits.head {r : Round} (h : SelectFits m a tmo (r :: rounds)) (hready : r.select m a = 0) :
    DeadlineFits r.start tmo := h [] r rounds rfl (List.forall_mem_nil _) hready

theorem selectFits_cons {r : Round} (hgoes : r.GoesOn m a tmo) :
    SelectFits m a tmo (r :: rounds) ↔ DeadlineFits r.start tmo ∧ SelectFits m a tmo rounds := by
  constructor
  · refine fun h => ⟨h.head hgoes.1, fun before q after hsplit hbefore => ?_⟩
    refine h (r :: before) q after (by rw [hsplit, List.cons_append]) fun x hx => ?_
    rcases List.mem_cons.1 hx with rfl | hx
    · exact hgoes
    · exact hbefore x hx
  · rintro ⟨hr, h⟩ before q after hsplit hbefore hready
    cases before with
    | nil =>
      cases hsplit
      exact hr
    | cons x before =>
      simp only [List.cons_append, List.cons.injEq] at hsplit
      exact h before q after hsplit.2 (fun y hy => hbefore y (List.mem_cons_of_mem _ hy)) hready

/-- A round that ends the call is the only one that counts. -/
theorem selectFits_of_ends {r : Round} (hends : ¬ r.GoesOn m a tmo) :
    SelectFits m a tmo (r :: rounds) ↔ (r.select m a = 0 → DeadlineFits r.start tmo) := by
  refine ⟨fun h => h.head, fun h before q after hsplit hbefore hready => ?_⟩
  cases before with
  | nil =>
    cases hsplit
    exact h hready
  | cons x before =>
    simp only [List.cons_append, List.cons.injEq] at hsplit
    exact absurd (hsplit.1 ▸ hbefore x List.mem_cons_self) hends

theorem selectLoop_panics_iff : ∀ {rounds : List Round} {k : Nat}, (∀ r ∈ rounds, r.start.Valid) →
    ((selectLoop m a tmo k rounds).1 = .panics ↔ ¬ SelectFits m a tmo rounds)
  | [], _, _ => by
    have hfits : SelectFits m a tmo [] := by
      intro before r after hsplit
      simp at hsplit
    exact iff_of_false (by simp [selectLoop]) fun h => h hfits
  | r :: rounds, k, hstart => by
    have hr : r.start.Valid := hstart r List.mem_cons_self
    rw [selectLoop]
    dsimp only
    by_cases hready : r.select m a = 0
    · simp only [hready, ne_eq, not_true_eq_false, if_false]
      cases hd : pollDeadline r.start tmo with
      | none =>
        have hnot := (pollDeadline_eq_none_iff hr).1 hd
        exact iff_of_true rfl fun h => hnot (h.head hready)
      | some deadline =>
        have hfits : DeadlineFits r.start tmo := by
          refine Classical.byContradiction fun hnot => ?_
          rw [(pollDeadline_eq_none_iff hr).2 hnot] at hd
          cases hd
        simp only
        cases hover : overdue deadline r.now with
        | true =>
          have hends : ¬ r.GoesOn m a tmo := fun hgoes => by
            rw [(not_overdue_iff hr hd).2 hgoes.2] at hover
            cases hover
          simp [selectFits_of_ends hends, hfits]
        | false =>
          have hgoes : r.GoesOn m a tmo := ⟨hready, (not_overdue_iff hr hd).1 hover⟩
          simp only [Bool.false_eq_true, if_false, selectFits_cons hgoes, hfits, true_and]
          exact selectLoop_panics_iff fun q hq => hstart q (List.mem_cons_of_mem _ hq)
    · have hends : ¬ r.GoesOn m a tmo := fun hgoes => hready hgoes.1
      simp [hready, selectFits_of_ends hends]

/-- The check at which the loop times out finds the timeout over, counted from its own round. -/
theorem selectLoop_timedOut : ∀ {rounds : List Round} {k i : Nat}, (∀ r ∈ rounds, r.start.Valid) →
    (selectLoop m a tmo k rounds).1 = .timedOut i →
      ∃ j r t, i = k + j ∧ rounds[j]? = some r ∧ tmo.timeout = some t ∧ r.start.total + t ≤ r.now.total
  | [], _, _, _, h => by cases h
  | r :: rounds, k, i, hstart, h => by
    rw [selectLoop] at h
    dsimp only at h
    split at h
    · cases h
    split at h
    · cases h
    rename_i deadline hd
    split at h
    · rename_i hover
      cases h
      obtain ⟨t, ht, hle⟩ := timeout_of_overdue (hstart r List.mem_cons_self) hd hover
      exact ⟨0, r, t, rfl, rfl, ht, hle⟩
    · obtain ⟨j, q, t, hj, hq, ht, hle⟩ := selectLoop_timedOut (fun q hq => hstart q (List.mem_cons_of_mem _ hq)) h
      exact ⟨j + 1, q, t, by omega, hq, ht, hle⟩

theorem sysSelect_panics_iff (room : Nat → Bool) (hstart : ∀ r ∈ rounds, r.start.Valid) :
    (sysSelect room m a tmo rounds).1 = .panics ↔ ¬ (room a.wordCount = true ∧ SelectFits m a tmo rounds) := by
  unfold sysSelect
  by_cases hroom : room a.wordCount = true
  · rw [if_pos hroom, selectLoop_panics_iff hstart]
    simp [hroom]
  · simp [hroom]

/-- With a clock that does not go back the timeout has passed since the call, too. -/
theorem sysSelect_timedOut {room : Nat → Bool} {entry : Duration} {i : Nat}
    (hstart : ∀ r ∈ rounds, r.start.Valid ∧ entry.total ≤ r.start.total)
    (h : (sysSelect room m a tmo rounds).1 = .timedOut i) :
    ∃ r t, rounds[i]? = some r ∧ tmo.timeout = some t ∧ entry.total + t ≤ r.now.total := by
  unfold sysSelect at h
  split at h
  · obtain ⟨j, r, t, rfl, hr, ht, hle⟩ := selectLoop_timedOut (fun r hr => (hstart r hr).1) h
    have hentry := (hstart r (List.mem_of_getElem? hr)).2
    exact ⟨r, t, by rw [Nat.zero_add]; exact hr, ht, by omega⟩
  · cases h

end Select

/-! ## The three calls -/

/-- **Timeouts**, for every `struct timespec` of a user: when `sys_nanosleep`, `sys_ppoll` and `sys_select` compute their
ends without an overflow or a panic, that none of them is over early, and that over every interleaving a sleeping task is
ready only when its time is over. -/
theorem timeouts_iff {n : Nat} (mode : TimerMode) (ticks time : Nat) (due : Fin n → Nat) (seconds nanos : BitVec 64)
    {entry : Duration} (hentry : entry.Valid) (tmo : TimeSpec) :
    (SleepOk mode ticks time due seconds nanos ↔ SleepFits mode ticks time due seconds nanos) ∧
    (∀ fds nfds rounds, ((sysPpoll entry fds nfds tmo rounds).1 ≠ .panics ↔ nfds = 0 ∨ DeadlineFits entry tmo) ∧
      ∀ i, (sysPpoll entry fds nfds tmo rounds).1 = .timedOut i →
        ∃ r t, rounds[i]? = some r ∧ tmo.timeout = some t ∧ entry.total + t ≤ r.now.total) ∧
    (∀ (room : Nat → Bool) m a rounds, (∀ r ∈ rounds, r.start.Valid ∧ entry.total ≤ r.start.total) →
      ((sysSelect room m a tmo rounds).1 ≠ .panics ↔ room a.wordCount = true ∧ SelectFits m a tmo rounds) ∧
      ∀ i, (sysSelect room m a tmo rounds).1 = .timedOut i →
        ∃ r t, rounds[i]? = some r ∧ tmo.timeout = some t ∧ entry.total + t ≤ r.now.total) ∧
    ∀ {m : Nat} {C : Type} (counts : Fin m → Int) (regs : Fin n → C) (zero : C) (es es' : List (Fin n × Event m C))
      (s s₁ s' : Sys n m C) (c : Fin n) (id wake time' : Nat) (taken : Fin n → List Nat),
      SleepFits mode ticks time due seconds nanos → sysNanosleep ticks seconds nanos = some (.sleeps wake) →
      (Sys.boot counts regs zero).run es = some s → (s.cpus c).current = some (.task id) →
      s.step c (.call (.sleep ticks (millis seconds nanos))) = some s₁ → s₁.run es' = some s' →
      (∀ c, Interrupts mode time (due c) (taken c)) → s'.ticks = ticksAt ticks taken time' →
      .task id ∈ s'.readyQueue → time + asked seconds nanos ≤ time' := by
  refine ⟨sleepOk_iff mode ticks time due seconds nanos, fun fds nfds rounds => ⟨?_, ?_⟩,
    fun room m a rounds hstart => ⟨?_, ?_⟩, ?_⟩
  · rw [ne_eq, sysPpoll_panics_iff hentry]
    simp only [ne_eq, not_and, Classical.not_not]
    exact ⟨fun h => Classical.or_iff_not_imp_left.2 h, fun h => Classical.or_iff_not_imp_left.1 h⟩
  · exact fun i => sysPpoll_timedOut hentry
  · rw [ne_eq, sysSelect_panics_iff room fun r hr => (hstart r hr).1, Classical.not_not]
  · exact fun i => sysSelect_timedOut hstart
  · intro m C counts regs zero es es' s s₁ s' c id wake time' taken hfits hsleeps hrun hcur hcall hrun' hinterrupts hticks
    exact asleep_long_enough mode ticks time due seconds nanos counts regs zero es es' hfits hsleeps hrun hcur hcall hrun'
      hinterrupts hticks

local instance sleeper_cpus : NeZero 2 := ⟨by decide⟩

/-- Task 1 runs on CPU 0. -/
def sleeperRun : List (Fin 2 × Event 1 Nat) := yieldRun ++ (List.replicate 5 (0, .advance) : List (Fin 2 × Event 1 Nat))

/-- It goes to the sleepers; the timer of CPU 0 counts, and CPU 1 wakes it. -/
def wakeRun : List (Fin 2 × Event 1 Nat) :=
  (List.replicate 5 (0, .advance) : List (Fin 2 × Event 1 Nat)) ++
  ([(0, .clock), (1, .call .timerTick), (1, .advance), (1, .advance)] : List (Fin 2 × Event 1 Nat))

/-- The next interrupts of two CPUs, 6 ms and 7 ms after the call. -/
def twoDues (c : Fin 2) : Nat := if c = 0 then 6000000 else 7000000

theorem twoDues_fits : SleepFits .rearmed 0 0 twoDues 0 5000000 := by
  refine Or.inr (Or.inr ⟨by decide +kernel, by decide +kernel, ?_⟩)
  rw [Fin.sum_univ_two]
  decide +kernel

/-- A sleep of 5 ms on two CPUs, in a run that makes the task ready at the interrupt of CPU 0, a poll of two seconds and one
without descriptors. -/
theorem timeouts_iff_two_cpus :
    SleepOk .rearmed 0 0 twoDues 0 5000000 ∧
      (∃ s s₁ s' : Sys 2 1 Nat, (Sys.boot (fun _ => 0) (fun _ => 0) 0).run sleeperRun = some s ∧
        s.step 0 (.call (.sleep 0 (millis 0 5000000))) = some s₁ ∧ s₁.run wakeRun = some s' ∧ .task 1 ∈ s'.readyQueue ∧
        ∀ time', ticksAt 0 (fun c : Fin 2 => if c = 0 then [6000000] else []) time' = 1 → 5000000 ≤ time') ∧
      (sysPpoll ⟨7, 0⟩ (some console) 1 (.words 2 0) [quietRound 7 8]).1 ≠ .panics ∧
      (sysPpoll ⟨7, 0⟩ (some []) 0 (.words (-1) 0) []).1 ≠ .panics ∧
      (sysSelect (fun _ => true) consoleSet consoleArgs (.words 2 0) []).1 ≠ .panics := by
  have hentry : (Duration.mk 7 0).Valid := ⟨by decide, by decide⟩
  have hdue : DeadlineFits ⟨7, 0⟩ (.words 2 0) := by
    intro t ht
    obtain rfl := Option.mem_some_iff.1 ht
    decide +kernel
  obtain ⟨hsleep, hppoll, hselect, hruns⟩ := timeouts_iff .rearmed 0 0 twoDues 0 5000000 hentry (.words 2 0)
  obtain ⟨-, hempty, -⟩ := timeouts_iff .rearmed 0 0 twoDues 0 0 hentry (.words (-1) 0)
  refine ⟨hsleep.2 twoDues_fits, ?_, (hppoll _ _ _).1.2 (Or.inr hdue), (hempty _ _ _).1.2 (Or.inl rfl),
    (hselect _ _ _ _ (List.forall_mem_nil _)).1.2 ⟨rfl, ?_⟩⟩
  · have hrun : ((Sys.boot (fun _ => 0) (fun _ => 0) 0).run sleeperRun).map (fun s => (s.cpus 0).current) =
        some (some (.task 1)) := by decide
    have hsleeps : (((Sys.boot (fun _ => 0) (fun _ => 0) 0).run sleeperRun).bind fun s =>
        (s.step 0 (.call (.sleep 0 (millis 0 5000000)))).bind fun s => s.run wakeRun).map
        (fun s => (s.readyQueue, s.ticks)) = some ([.task 1], 1) := by decide
    obtain ⟨s', hs', hv⟩ := Option.map_eq_some_iff.1 hsleeps
    obtain ⟨s, hs, hs'⟩ := Option.bind_eq_some_iff.1 hs'
    obtain ⟨s₁, hs₁, hs'⟩ := Option.bind_eq_some_iff.1 hs'
    rw [hs, Option.map_some, Option.some.injEq] at hrun
    simp only [Prod.mk.injEq] at hv
    have hready : .task 1 ∈ s'.readyQueue := by rw [hv.1]; exact List.mem_singleton_self _
    refine ⟨s, s₁, s', hs, hs₁, hs', hready, fun time' htime => ?_⟩
    refine Nat.le_trans (by decide) (hruns _ _ _ _ _ s s₁ s' 0 1 1 time' _ twoDues_fits (by decide +kernel) hs hrun hs₁ hs'
      (fun c => ?_) (hv.2.trans htime.symm) hready)
    by_cases hc : c = 0
    · rw [if_pos hc, twoDues, if_pos hc]
      exact .cons (by decide) (by decide) (Nat.le_refl _) .nil
    · rw [if_neg hc]
      exact .nil
  · intro before r after hsplit
    simp at hsplit

/-- A sleep of 10 ms called 1 ms after a tick can be over at the next one, 9 ms later; on two CPUs one of 20 ms is over
after half its time. A sleep of 2^62 seconds overflows, and the time `-1` makes the polls panic. -/
theorem timeouts_fail :
    (∀ mode, ¬ SleepOk mode 0 1000000 (fun _ : Fin 1 => 10000000) 0 10000000) ∧
      (∀ mode, ¬ SleepOk mode 0 0 (fun _ : Fin 2 => 10000000) 0 20000000) ∧
      sysNanosleep 0 (2 ^ 62) 0 = none ∧
      (sysPpoll ⟨1, 0⟩ (some console) 1 (.words (-1) 0) [quietRound 1 1]).1 = .panics ∧
      (sysSelect (fun _ => true) consoleSet consoleArgs (.words (-1) 0) [quietRound 1 1]).1 = .panics := by
  refine ⟨fun mode => ?_, fun mode => ?_, by decide +kernel, by decide +kernel, by decide +kernel⟩
  · rw [sleepOk_iff, SleepFits, Fin.sum_univ_one]
    cases mode <;> decide +kernel
  · rw [sleepOk_iff, SleepFits, Fin.sum_univ_two]
    cases mode <;> decide +kernel

end Koros.Fd
