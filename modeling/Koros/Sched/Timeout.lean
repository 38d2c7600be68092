import Koros.Sched.Asleep
import Mathlib.Algebra.Order.BigOperators.Group.Finset
import Mathlib.Data.BitVec

/-!
# Timeouts

`sys_nanosleep` and `poll_deadline` of `korix/src/syscall/mod.rs`, with the tick that `sleep` of `kor-sched/src/lib.rs`
computes and the timers of `kor-arch`: what becomes of the time that a user asks for. Every CPU starts a timer of its own and
each of its interrupts counts the one tick count up, so a sleep is over when all timers together have counted enough.

- `Interrupts.count_le`, `onTime_interrupts`: how many interrupts a timer can take before a time;
- `sleepOk_iff`: when a sleep is computed without overflow and ends at a tick that is late enough;
- `asleep_long_enough`: over every interleaving such a sleep ends late enough;
- `pollDeadline_iff`: when the deadline of a poll is computed without a panic.
-/
set_option autoImplicit false

namespace Koros.Sched

open Koros.Lib

/-! ## What the calls compute -/

/-- Arithmetic in `u64`; `none` is an overflow. -/
def u64 (x : Nat) : Option Nat := if x < 2 ^ 64 then some x else none

/-- `u64::div_ceil`. -/
def divCeil (a b : Nat) : Nat := (a + (b - 1)) / b

/-- The tick of `sleep`, if nothing overflows. -/
def sleepTick (ticks ms : Nat) : Option Nat := do
  let scaled ← u64 (ms * tickHz)
  u64 (ticks + max (scaled / 1000) 1)

/-- What `sys_nanosleep` does with a time that it can read. -/
inductive Nanosleep where
  /-- `-EINVAL`. -/
  | rejected
  /-- Returns at once. -/
  | returned
  /-- Sleeps until the tick. -/
  | sleeps (wake : Nat)
deriving DecidableEq, Repr

/-- The milliseconds that `sys_nanosleep` computes. -/
def nanosleepMillis (seconds nanos : Nat) : Option Nat :=
  (u64 (seconds * 1000)).bind fun scaled => u64 (scaled + divCeil nanos 1000000)

/-- `sys_nanosleep`, with the tick count that `sleep` reads. The scheduler is ready when a process runs. -/
def sysNanosleep (ticks : Nat) (seconds nanos : BitVec 64) : Option Nanosleep :=
  if seconds.toInt < 0 ∨ nanos.toInt < 0 ∨ 1000000000 ≤ nanos.toInt then some .rejected
  else (nanosleepMillis seconds.toNat nanos.toNat).bind fun millis =>
    if millis ≠ 0 then (sleepTick ticks millis).map .sleeps else some .returned

/-- `core::time::Duration`. -/
structure Duration where
  secs : Nat
  nanos : Nat
deriving DecidableEq, Repr

namespace Duration

/-- In nanoseconds. -/
def total (d : Duration) : Nat := d.secs * 1000000000 + d.nanos

/-- `Duration::new`, which panics when the carry overflows. -/
def new (secs nanos : Nat) : Option Duration := do
  let secs ← u64 (secs + nanos / 1000000000)
  return ⟨secs, nanos % 1000000000⟩

/-- The sum, which panics when the seconds overflow. -/
def add (d e : Duration) : Option Duration := do
  let secs ← u64 (d.secs + e.secs)
  let nanos := d.nanos + e.nanos
  if nanos < 1000000000 then return ⟨secs, nanos⟩
  else return ⟨← u64 (secs + 1), nanos - 1000000000⟩

end Duration

/-- The `struct timespec` that the user passes. -/
inductive TimeSpec where
  | null
  | unreadable
  | words (seconds nanos : BitVec 64)
deriving DecidableEq, Repr

/-- `poll_deadline` at time `now`; the outer `none` is a panic, the inner one waits for ever. -/
def pollDeadline (now : Duration) : TimeSpec → Option (Option Duration)
  | .null => some none
  | .unreadable => some none
  | .words seconds nanos => do
    let timeout ← Duration.new seconds.toNat (min nanos.toNat 1000000000)
    return some (← now.add timeout)

/-- There is a deadline, and it is over. -/
def overdue (deadline : Option Duration) (now : Duration) : Bool := deadline.any fun d => d.total ≤ now.total

/-! ## The timers -/

/-- A period of the tick, in nanoseconds. -/
def period : Nat := 1000000000 / tickHz

/-- How a timer goes on: riscv64 and aarch64 set it in `handle_tick`, x86_64 has a periodic one. -/
inductive TimerMode where
  | rearmed
  | periodic
deriving DecidableEq, Repr

/-- When the next interrupt is due, after one that was due at `due` and taken at `time`. -/
def handleTick : TimerMode → (due time : Nat) → Nat
  | .rearmed, _, time => time + period
  | .periodic, due, _ => due + period

/-- The times at which a CPU takes its timer interrupts from `time` on, the first of them due at `due`. An interrupt waits
while the CPU has them off, and a periodic timer loses some then. -/
inductive Interrupts (mode : TimerMode) : (time due : Nat) → List Nat → Prop
  | nil {time due : Nat} : Interrupts mode time due []
  | cons {time due due' t : Nat} {ts : List Nat} : time ≤ t → due ≤ t → handleTick mode due t ≤ due' →
      Interrupts mode t due' ts → Interrupts mode time due (t :: ts)

/-- The tick count at `time'`, from `ticks` on: the interrupts of every CPU count it up. -/
def ticksAt {n : Nat} (ticks : Nat) (taken : Fin n → List Nat) (time' : Nat) : Nat :=
  ticks + ∑ c, (taken c).countP (· ≤ time')

/-- From when on the interrupts that a CPU can still take are due: a timer that is set again keeps its distance from the
one that is late. -/
def dueFrom : TimerMode → (time due : Nat) → Nat
  | .rearmed, time, due => max time due
  | .periodic, _, due => due

/-- The interrupts that a CPU can take from `time` on and before `time'`. -/
def dueBefore (mode : TimerMode) (time due time' : Nat) : Nat := divCeil (time' - dueFrom mode time due) period

/-- The time that the user asked for, in nanoseconds. -/
def asked (seconds nanos : BitVec 64) : Nat := seconds.toNat * 1000000000 + nanos.toNat

/-- The milliseconds, rounded up. -/
def millis (seconds nanos : BitVec 64) : Nat := seconds.toNat * 1000 + divCeil nanos.toNat 1000000

section Sleeps

variable {n : Nat} (mode : TimerMode) (ticks time : Nat) (due : Fin n → Nat) (seconds nanos : BitVec 64)

/-- A sleep called at `time`, when the tick count is `ticks` and the next interrupt of each CPU is due at `due`, is rejected,
or computed without overflow and over at no time before its end, whenever the interrupts are taken. -/
def SleepOk : Prop :=
  sysNanosleep ticks seconds nanos = some .rejected ∨
    (sysNanosleep ticks seconds nanos = some .returned ∧ asked seconds nanos = 0) ∨
    ∃ wake, sysNanosleep ticks seconds nanos = some (.sleeps wake) ∧
      ∀ taken : Fin n → List Nat, (∀ c, Interrupts mode time (due c) (taken c)) →
        ∀ time', wake ≤ ticksAt ticks taken time' → time + asked seconds nanos ≤ time'

/-- The time is not valid, or zero; or the ticks fit into 64 bits, and fewer interrupts than these ticks are due before the
time asked for is over. -/
def SleepFits : Prop :=
  (seconds.toInt < 0 ∨ nanos.toInt < 0 ∨ 1000000000 ≤ nanos.toInt) ∨ asked seconds nanos = 0 ∨
    (millis seconds nanos * tickHz < 2 ^ 64 ∧ ticks + max (millis seconds nanos / 10) 1 < 2 ^ 64 ∧
      ∑ c, dueBefore mode time (due c) (time + asked seconds nanos) < max (millis seconds nanos / 10) 1)

end Sleeps

/-! ### How many interrupts are taken -/

theorem period_pos : 0 < period := by decide

section Interrupts

variable {mode : TimerMode} {time due due' t time' : Nat} {ts : List Nat}

theorem Interrupts.le_of_mem (h : Interrupts mode time due ts) : ∀ u ∈ ts, time ≤ u := by
  induction h with
  | nil => exact List.forall_mem_nil _
  | cons htime _ _ _ ih =>
    intro u hu
    rcases List.mem_cons.1 hu with rfl | hu
    · exact htime
    · exact Nat.le_trans htime (ih u hu)

theorem dueFrom_le (htime : time ≤ t) (hdue : due ≤ t) : dueFrom mode time due ≤ t := by
  cases mode with
  | rearmed => exact Nat.max_le.2 ⟨htime, hdue⟩
  | periodic => exact hdue

/-- The next interrupt is due at least a period later. -/
theorem dueFrom_add_period_le (htime : time ≤ t) (hdue : due ≤ t) (hnext : handleTick mode due t ≤ due') :
    dueFrom mode time due + period ≤ dueFrom mode t due' := by
  cases mode with
  | rearmed =>
    have hle : t + period ≤ due' := hnext
    have hfrom : max time due ≤ t := Nat.max_le.2 ⟨htime, hdue⟩
    simp only [dueFrom]
    omega
  | periodic => exact hnext

theorem dueBefore_step (h : dueFrom mode time due + period ≤ dueFrom mode t due') (hlt : dueFrom mode time due < time') :
    dueBefore mode t due' time' + 1 ≤ dueBefore mode time due time' := by
  have hpos := period_pos
  have hle : time' - dueFrom mode t due' + (period - 1) + period ≤ time' - dueFrom mode time due + (period - 1) ∨
      time' - dueFrom mode t due' = 0 := by omega
  unfold dueBefore divCeil
  rcases hle with hle | hzero
  · calc (time' - dueFrom mode t due' + (period - 1)) / period + 1
        = (time' - dueFrom mode t due' + (period - 1) + period) / period := (Nat.add_div_right _ hpos).symm
      _ ≤ (time' - dueFrom mode time due + (period - 1)) / period := Nat.div_le_div_right hle
  · have hnone : (time' - dueFrom mode t due' + (period - 1)) / period = 0 :=
      Nat.div_eq_of_lt (by omega)
    have hone : 1 ≤ (time' - dueFrom mode time due + (period - 1)) / period :=
      (Nat.one_le_div_iff hpos).2 (by omega)
    omega

/-- **Interrupts are not early**: before a time no more of them are taken than are due. -/
theorem Interrupts.count_le (h : Interrupts mode time due ts) (time' : Nat) :
    ts.countP (· < time') ≤ dueBefore mode time due time' := by
  induction h with
  | nil => exact Nat.zero_le _
  | @cons time due due' t ts htime hdue hnext hts ih =>
    by_cases hlt : t < time'
    · have hstep := dueBefore_step (dueFrom_add_period_le htime hdue hnext)
        (Nat.lt_of_le_of_lt (dueFrom_le htime hdue) hlt)
      rw [List.countP_cons_of_pos (by simpa using hlt)]
      omega
    · -- the later ones are taken later still
      have hnone : (t :: ts).countP (· < time') = 0 := by
        rw [List.countP_eq_zero]
        intro u hu
        rcases List.mem_cons.1 hu with rfl | hu
        · simpa using hlt
        · have := hts.le_of_mem u hu
          simp only [decide_eq_true_eq]
          omega
      omega

/-- The interrupts taken as soon as they are due. -/
def onTime (mode : TimerMode) : (time due k : Nat) → List Nat
  | _, _, 0 => []
  | time, due, k + 1 => max time due :: onTime mode (max time due) (handleTick mode due (max time due)) k

theorem onTime_interrupts (mode : TimerMode) : ∀ time due k : Nat, Interrupts mode time due (onTime mode time due k)
  | _, _, 0 => .nil
  | time, due, k + 1 =>
    .cons (Nat.le_max_left time due) (Nat.le_max_right time due) (Nat.le_refl _) (onTime_interrupts mode _ _ k)

theorem dueFrom_handleTick (mode : TimerMode) (time due : Nat) :
    dueFrom mode (max time due) (handleTick mode due (max time due)) = dueFrom mode time due + period := by
  cases mode with
  | rearmed => exact Nat.max_eq_right (Nat.le_add_right _ _)
  | periodic => rfl

/-- As many as are due before a time are taken before it. -/
theorem onTime_lt : ∀ {k time due : Nat}, time < time' → k ≤ dueBefore mode time due time' →
    ∀ u ∈ onTime mode time due k, u < time'
  | 0, _, _, _, _ => List.forall_mem_nil _
  | k + 1, time, due, htime, hk => by
    have hfrom : dueFrom mode time due < time' := by
      refine Nat.lt_of_not_le fun hle => ?_
      have hzero : dueBefore mode time due time' = 0 := by
        rw [dueBefore, Nat.sub_eq_zero_of_le hle]
        rfl
      omega
    have hmax : max time due < time' := by
      refine Nat.max_lt.2 ⟨htime, ?_⟩
      cases mode with
      | rearmed => exact Nat.lt_of_le_of_lt (Nat.le_max_right time due) hfrom
      | periodic => exact hfrom
    have hrest : k ≤ dueBefore mode (max time due) (handleTick mode due (max time due)) time' := by
      rw [dueBefore, dueFrom_handleTick]
      rw [dueBefore, divCeil] at hk
      rw [divCeil]
      have hpos := period_pos
      have hmul := (Nat.le_div_iff_mul_le hpos).1 hk
      rw [Nat.add_mul, Nat.one_mul] at hmul
      refine (Nat.le_div_iff_mul_le hpos).2 ?_
      omega
    intro u hu
    rcases List.mem_cons.1 hu with rfl | hu
    · exact hmax
    · exact onTime_lt hmax hrest u hu

theorem length_onTime (mode : TimerMode) : ∀ time due k : Nat, (onTime mode time due k).length = k
  | _, _, 0 => rfl
  | _, _, k + 1 => congrArg (· + 1) (length_onTime mode _ _ k)

end Interrupts

/-! ## Sleeps -/

theorem u64_of_lt {x : Nat} (h : x < 2 ^ 64) : u64 x = some x := if_pos h

theorem u64_of_le {x : Nat} (h : 2 ^ 64 ≤ x) : u64 x = none := if_neg (Nat.not_lt.2 h)

theorem sleepTick_eq {ticks ms : Nat} (h₁ : ms * tickHz < 2 ^ 64) (h₂ : ticks + max (ms / 10) 1 < 2 ^ 64) :
    sleepTick ticks ms = some (ticks + max (ms / 10) 1) := by
  have hdiv : ms * tickHz / 1000 = ms / 10 := by unfold tickHz; omega
  simp only [sleepTick, u64_of_lt h₁, Option.bind_eq_bind, Option.bind_some, hdiv, u64_of_lt h₂]

theorem sleepTick_eq_none {ticks ms : Nat} (h : ¬ (ms * tickHz < 2 ^ 64 ∧ ticks + max (ms / 10) 1 < 2 ^ 64)) :
    sleepTick ticks ms = none := by
  have hdiv : ms * tickHz / 1000 = ms / 10 := by unfold tickHz; omega
  by_cases h₁ : ms * tickHz < 2 ^ 64
  · have h₂ : 2 ^ 64 ≤ ticks + max (ms / 10) 1 := Nat.le_of_not_lt fun h₂ => h ⟨h₁, h₂⟩
    simp only [sleepTick, u64_of_lt h₁, Option.bind_eq_bind, Option.bind_some, hdiv, u64_of_le h₂]
  · simp only [sleepTick, u64_of_le (Nat.le_of_not_lt h₁), Option.bind_eq_bind, Option.bind_none]

/-- Without overflow it is the tick that the scheduler stores. -/
theorem sleepUntil_of_sleepTick {ticks ms wake : Nat} (h : sleepTick ticks ms = some wake) :
    Sys.sleepUntil ticks ms = wake := by
  by_cases hfit : ms * tickHz < 2 ^ 64 ∧ ticks + max (ms / 10) 1 < 2 ^ 64
  · rw [sleepTick_eq hfit.1 hfit.2] at h
    have hdiv : ms * tickHz / 1000 = ms / 10 := by unfold tickHz; omega
    rw [Sys.sleepUntil, Nat.mod_eq_of_lt hfit.1, hdiv, Nat.mod_eq_of_lt hfit.2]
    exact Option.some.inj h
  · rw [sleepTick_eq_none hfit] at h
    cases h

theorem millis_ne_zero {seconds nanos : BitVec 64} (h : asked seconds nanos ≠ 0) : millis seconds nanos ≠ 0 := by
  rw [asked] at h
  rw [millis, divCeil]
  intro hzero
  have hn : (nanos.toNat + (1000000 - 1)) / 1000000 = 0 := (Nat.add_eq_zero_iff.1 hzero).2
  have hlt := Nat.lt_of_div_eq_zero (by decide) hn
  omega

theorem nanosleepMillis_of_lt {seconds nanos : Nat} (h : seconds * 1000 + divCeil nanos 1000000 < 2 ^ 64) :
    nanosleepMillis seconds nanos = some (seconds * 1000 + divCeil nanos 1000000) := by
  have h₁ : seconds * 1000 < 2 ^ 64 := Nat.lt_of_le_of_lt (Nat.le_add_right _ _) h
  rw [nanosleepMillis, u64_of_lt h₁, Option.bind_some, u64_of_lt h]

theorem nanosleepMillis_of_le {seconds nanos : Nat} (h : 2 ^ 64 ≤ seconds * 1000 + divCeil nanos 1000000) :
    nanosleepMillis seconds nanos = none := by
  by_cases h₁ : seconds * 1000 < 2 ^ 64
  · rw [nanosleepMillis, u64_of_lt h₁, Option.bind_some, u64_of_le h]
  · rw [nanosleepMillis, u64_of_le (Nat.le_of_not_lt h₁), Option.bind_none]

/-- `sys_nanosleep` on a valid time. -/
theorem sysNanosleep_eq {ticks : Nat} {seconds nanos : BitVec 64}
    (hvalid : ¬ (seconds.toInt < 0 ∨ nanos.toInt < 0 ∨ 1000000000 ≤ nanos.toInt)) (hne : asked seconds nanos ≠ 0) :
    sysNanosleep ticks seconds nanos = (sleepTick ticks (millis seconds nanos)).map .sleeps := by
  have hpos := millis_ne_zero hne
  rw [sysNanosleep, if_neg hvalid]
  by_cases h : millis seconds nanos < 2 ^ 64
  · have hm : nanosleepMillis seconds.toNat nanos.toNat = some (millis seconds nanos) := nanosleepMillis_of_lt h
    rw [hm, Option.bind_some, if_pos hpos]
  · have hm : nanosleepMillis seconds.toNat nanos.toNat = none := nanosleepMillis_of_le (Nat.le_of_not_lt h)
    have hnone : sleepTick ticks (millis seconds nanos) = none := sleepTick_eq_none fun h' => by
      have := h'.1
      unfold tickHz at this
      omega
    rw [hm, hnone]
    rfl

theorem sysNanosleep_zero {ticks : Nat} {seconds nanos : BitVec 64}
    (hvalid : ¬ (seconds.toInt < 0 ∨ nanos.toInt < 0 ∨ 1000000000 ≤ nanos.toInt)) (hzero : asked seconds nanos = 0) :
    sysNanosleep ticks seconds nanos = some .returned := by
  have h₁ : seconds.toNat = 0 := by
    unfold asked at hzero
    omega
  have h₂ : nanos.toNat = 0 := by
    unfold asked at hzero
    omega
  simp [sysNanosleep, hvalid, h₁, h₂, nanosleepMillis, u64, divCeil]

/-- When `k` ticks do not pass before a time that is not over yet. -/
theorem ticksAt_reaches {n : Nat} (mode : TimerMode) (ticks time : Nat) (due : Fin n → Nat) (k : Nat) {d : Nat} (hd : 0 < d) :
    (∀ taken : Fin n → List Nat, (∀ c, Interrupts mode time (due c) (taken c)) →
        ∀ time', ticks + k ≤ ticksAt ticks taken time' → time + d ≤ time') ↔
      ∑ c, dueBefore mode time (due c) (time + d) < k := by
  constructor
  · intro h
    refine Nat.lt_of_not_le fun hle => ?_
    -- all interrupts are taken as soon as they are due
    let taken : Fin n → List Nat := fun c => onTime mode time (due c) (dueBefore mode time (due c) (time + d))
    have htaken : ∀ c, (taken c).countP (· ≤ time + d - 1) = dueBefore mode time (due c) (time + d) := by
      intro c
      have hall : ∀ u ∈ taken c, u < time + d := onTime_lt (by omega) (Nat.le_refl _)
      rw [List.countP_eq_length.2, length_onTime]
      intro u hu
      have := hall u hu
      simp only [decide_eq_true_eq]
      omega
    have hticks : ticks + k ≤ ticksAt ticks taken (time + d - 1) := by
      rw [ticksAt, Finset.sum_congr rfl fun c _ => htaken c]
      omega
    have := h taken (fun c => onTime_interrupts mode _ _ _) _ hticks
    omega
  · intro h taken hinterrupts time' hticks
    refine Nat.le_of_not_lt fun hlt => ?_
    have hsum : ∑ c, (taken c).countP (· ≤ time') ≤ ∑ c, dueBefore mode time (due c) (time + d) := by
      refine Finset.sum_le_sum fun c _ => Nat.le_trans ?_ ((hinterrupts c).count_le (time + d))
      refine List.countP_mono_left fun u _ hu => ?_
      simp only [decide_eq_true_eq] at hu ⊢
      omega
    unfold ticksAt at hticks
    omega

/-- The wake tick of `sys_nanosleep` is the one that `sleep` stores. -/
theorem sleepUntil_of_sleeps {ticks wake : Nat} {seconds nanos : BitVec 64}
    (h : sysNanosleep ticks seconds nanos = some (.sleeps wake)) : Sys.sleepUntil ticks (millis seconds nanos) = wake := by
  by_cases hvalid : seconds.toInt < 0 ∨ nanos.toInt < 0 ∨ 1000000000 ≤ nanos.toInt
  · rw [sysNanosleep, if_pos hvalid] at h
    cases h
  by_cases hzero : asked seconds nanos = 0
  · rw [sysNanosleep_zero hvalid hzero] at h
    cases h
  rw [sysNanosleep_eq hvalid hzero] at h
  obtain ⟨w, hw, he⟩ := Option.map_eq_some_iff.1 h
  cases he
  exact sleepUntil_of_sleepTick hw

section Sleeps

variable {n : Nat} (mode : TimerMode) (ticks time : Nat) (due : Fin n → Nat) (seconds nanos : BitVec 64)

/-- When a sleep is computed without overflow and ends late enough. -/
theorem sleepOk_iff : SleepOk mode ticks time due seconds nanos ↔ SleepFits mode ticks time due seconds nanos := by
  by_cases hvalid : seconds.toInt < 0 ∨ nanos.toInt < 0 ∨ 1000000000 ≤ nanos.toInt
  · exact ⟨fun _ => Or.inl hvalid, fun _ => Or.inl (by rw [sysNanosleep, if_pos hvalid])⟩
  by_cases hzero : asked seconds nanos = 0
  · exact ⟨fun _ => Or.inr (Or.inl hzero), fun _ => Or.inr (Or.inl ⟨sysNanosleep_zero hvalid hzero, hzero⟩)⟩
  have heq := @sysNanosleep_eq ticks seconds nanos hvalid hzero
  have hreach := ticksAt_reaches mode ticks time due (max (millis seconds nanos / 10) 1) (Nat.pos_of_ne_zero hzero)
  unfold SleepOk SleepFits
  rw [heq]
  by_cases hfit : millis seconds nanos * tickHz < 2 ^ 64 ∧ ticks + max (millis seconds nanos / 10) 1 < 2 ^ 64
  · rw [sleepTick_eq hfit.1 hfit.2]
    simp only [Option.map_some, Option.some.injEq, reduceCtorEq, false_and, false_or, Nanosleep.sleeps.injEq,
      exists_eq_left', hreach, hvalid, hzero, hfit, true_and]
  · rw [sleepTick_eq_none hfit]
    simp only [Option.map_none, reduceCtorEq, false_and, or_self, exists_false, hvalid, hzero, false_or, false_iff]
    exact fun h => hfit ⟨h.1, h.2.1⟩

/-- **Sleeping tasks**: over every interleaving a task that slept for a time that fits is ready only when that time is over,
whenever the CPUs take their timer interrupts. -/
theorem asleep_long_enough {m : Nat} {C : Type} (counts : Fin m → Int) (regs : Fin n → C) (zero : C)
    (es es' : List (Fin n × Event m C)) {s s₁ s' : Sys n m C} {c : Fin n} {id wake time' : Nat} {taken : Fin n → List Nat}
    (hfits : SleepFits mode ticks time due seconds nanos)
    (hsleeps : sysNanosleep ticks seconds nanos = some (.sleeps wake))
    (hrun : (Sys.boot counts regs zero).run es = some s) (hcur : (s.cpus c).current = some (.task id))
    (hcall : s.step c (.call (.sleep ticks (millis seconds nanos))) = some s₁) (hrun' : s₁.run es' = some s')
    (hinterrupts : ∀ c, Interrupts mode time (due c) (taken c)) (hticks : s'.ticks = ticksAt ticks taken time')
    (hready : .task id ∈ s'.readyQueue) : time + asked seconds nanos ≤ time' := by
  have hle := asleep_until counts regs zero es es' hrun hcur hcall hrun' hready
  rw [sleepUntil_of_sleeps hsleeps, hticks] at hle
  rcases (sleepOk_iff mode ticks time due seconds nanos).2 hfits with hno | ⟨hno, -⟩ | ⟨wake', hwake, hlate⟩
  · rw [hno] at hsleeps
    cases hsleeps
  · rw [hno] at hsleeps
    cases hsleeps
  · rw [hwake] at hsleeps
    cases hsleeps
    exact hlate taken hinterrupts time' hle

end Sleeps

/-! ## Deadlines -/

namespace Duration

/-- A value that the library can build. -/
def Valid (d : Duration) : Prop := d.secs < 2 ^ 64 ∧ d.nanos < 1000000000

/-- The nanoseconds that a duration has at most are below this. -/
def limit : Nat := 2 ^ 64 * 1000000000

theorem new_of_lt {secs nanos : Nat} (h : secs * 1000000000 + nanos < limit) :
    ∃ d, new secs nanos = some d ∧ d.Valid ∧ d.total = secs * 1000000000 + nanos := by
  have hlt : secs + nanos / 1000000000 < 2 ^ 64 := by
    unfold limit at h
    omega
  have hmod : nanos % 1000000000 < 1000000000 := Nat.mod_lt _ (by omega)
  refine ⟨⟨secs + nanos / 1000000000, nanos % 1000000000⟩, ?_, ⟨hlt, hmod⟩, ?_⟩
  · simp only [new, u64_of_lt hlt, Option.bind_eq_bind, Option.bind_some]
    rfl
  · have := Nat.div_add_mod nanos 1000000000
    simp only [total, Nat.add_mul]
    omega

theorem new_of_le {secs nanos : Nat} (h : limit ≤ secs * 1000000000 + nanos) : new secs nanos = none := by
  have hle : 2 ^ 64 ≤ secs + nanos / 1000000000 := by
    unfold limit at h
    omega
  simp only [new, u64_of_le hle, Option.bind_eq_bind, Option.bind_none]

theorem add_of_lt {d e : Duration} (hd : d.Valid) (he : e.Valid) (h : d.total + e.total < limit) :
    ∃ f, d.add e = some f ∧ f.total = d.total + e.total := by
  have h₁ := hd.2
  have h₂ := he.2
  unfold total limit at h
  have hsecs : d.secs + e.secs < 2 ^ 64 := by omega
  by_cases hcarry : d.nanos + e.nanos < 1000000000
  · refine ⟨⟨d.secs + e.secs, d.nanos + e.nanos⟩, ?_, ?_⟩
    · simp only [add, u64_of_lt hsecs, Option.bind_eq_bind, Option.bind_some, if_pos hcarry]
      rfl
    · simp only [total, Nat.add_mul]
      omega
  · have hsecs' : d.secs + e.secs + 1 < 2 ^ 64 := by omega
    refine ⟨⟨d.secs + e.secs + 1, d.nanos + e.nanos - 1000000000⟩, ?_, ?_⟩
    · simp only [add, u64_of_lt hsecs, Option.bind_eq_bind, Option.bind_some, if_neg hcarry, u64_of_lt hsecs']
      rfl
    · simp only [total, Nat.add_mul]
      omega

theorem add_of_le {d e : Duration} (hd : d.Valid) (he : e.Valid) (h : limit ≤ d.total + e.total) : d.add e = none := by
  have h₁ := hd.2
  have h₂ := he.2
  unfold total limit at h
  by_cases hsecs : d.secs + e.secs < 2 ^ 64
  · have hcarry : ¬ d.nanos + e.nanos < 1000000000 := by omega
    have hsecs' : 2 ^ 64 ≤ d.secs + e.secs + 1 := by omega
    simp only [add, u64_of_lt hsecs, Option.bind_eq_bind, Option.bind_some, if_neg hcarry, u64_of_le hsecs',
      Option.bind_none]
  · simp only [add, u64_of_le (Nat.le_of_not_lt hsecs), Option.bind_eq_bind, Option.bind_none]

end Duration

/-- The timeout of a poll in nanoseconds: more than a second of nanoseconds counts as a second. -/
def timeoutOf (seconds nanos : BitVec 64) : Nat := seconds.toNat * 1000000000 + min nanos.toNat 1000000000

/-- The timeout, if there is one. -/
def TimeSpec.timeout : TimeSpec → Option Nat
  | .null => none
  | .unreadable => none
  | .words seconds nanos => some (timeoutOf seconds nanos)

/-- The end of the timeout is a `Duration`. -/
def DeadlineFits (now : Duration) (tmo : TimeSpec) : Prop := ∀ t ∈ tmo.timeout, now.total + t < Duration.limit

/-- When the deadline of a poll is computed without a panic, and what it is. -/
theorem pollDeadline_iff {now : Duration} (hnow : now.Valid) (seconds nanos : BitVec 64) :
    (∃ deadline, pollDeadline now (.words seconds nanos) = some (some deadline) ∧
      deadline.total = now.total + timeoutOf seconds nanos) ↔ now.total + timeoutOf seconds nanos < Duration.limit := by
  by_cases hnew : timeoutOf seconds nanos < Duration.limit
  · obtain ⟨timeout, ht, hvalid, htotal⟩ := Duration.new_of_lt hnew
    have htotal : timeout.total = timeoutOf seconds nanos := htotal
    by_cases hadd : now.total + timeoutOf seconds nanos < Duration.limit
    · obtain ⟨deadline, hd, hsum⟩ := Duration.add_of_lt hnow hvalid (by rw [htotal]; exact hadd)
      refine ⟨fun _ => hadd, fun _ => ⟨deadline, ?_, by rw [hsum, htotal]⟩⟩
      simp only [pollDeadline, ht, Option.bind_eq_bind, Option.bind_some, hd]
      rfl
    · refine ⟨?_, fun h => absurd h hadd⟩
      rintro ⟨deadline, hd, -⟩
      have hnone := Duration.add_of_le hnow hvalid (by rw [htotal]; exact Nat.le_of_not_lt hadd)
      simp only [pollDeadline, ht, Option.bind_eq_bind, Option.bind_some, hnone, Option.bind_none, reduceCtorEq] at hd
  · refine ⟨?_, fun h => absurd (Nat.lt_of_le_of_lt (Nat.le_add_left _ _) h) hnew⟩
    rintro ⟨deadline, hd, -⟩
    have hnone : Duration.new seconds.toNat (min nanos.toNat 1000000000) = none :=
      Duration.new_of_le (Nat.le_of_not_lt hnew)
    simp only [pollDeadline, hnone, Option.bind_eq_bind, Option.bind_none, reduceCtorEq] at hd

theorem overdue_iff {deadline : Option Duration} {now : Duration} :
    overdue deadline now = true ↔ ∃ d, deadline = some d ∧ d.total ≤ now.total := by
  unfold overdue
  rw [Option.any_eq_true]
  constructor
  · rintro ⟨d, hd, hle⟩
    exact ⟨d, hd, of_decide_eq_true hle⟩
  · rintro ⟨d, hd, hle⟩
    exact ⟨d, hd, decide_eq_true hle⟩

end Koros.Sched
