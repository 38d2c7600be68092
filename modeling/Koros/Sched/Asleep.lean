import Koros.Sched.Conserve

/-!
# Sleeping tasks

`sleep` and `timer_tick` of `kor-sched/src/lib.rs`. A task that called `sleep` goes through the slots of its CPU to the
sleepers (`Asleep`), and only the loop of `timer_tick` takes it out, when the tick it read has reached the task's.

- `step_stays`: a step leaves a sleeping task where it is or moves it towards the sleepers, unless its tick is over;
- `asleep_until`: over every interleaving, a task that called `sleep` is not made ready before the tick it computed.
-/
set_option autoImplicit false

namespace Koros.Sched

open Koros.Lib

section Asleep

variable {n m : Nat} {C : Type} {s s' : Sys n m C} {c : Fin n} {id : Nat}

/-! ## Tasks on their way to the sleepers -/

/-- The CPU is taking the task that called `sleep` off. -/
def CpuAsleep (cpu : PerCpu n m C) (id : Nat) : Prop :=
  (cpu.current = some (.task id) ∧ (cpu.phase = .schedule .toSleep ∨ ∃ next, cpu.phase = .picked next .toSleep)) ∨
    cpu.prev = some (.task id, .toSleep) ∨ cpu.phase = .transition (.task id) .toSleep

/-- The task called `sleep` and was not woken yet. -/
def Asleep (s : Sys n m C) (id : Nat) : Prop := .task id ∈ s.sleepers ∨ ∃ c, CpuAsleep (s.cpus c) id

/-- A loop of `timer_tick` that the CPU is in read a tick that is over. -/
def Phase.TickBy (ticks : Nat) : Phase n m → Prop
  | .ticking now _ => now ≤ ticks
  | .tickWake now _ _ => now ≤ ticks
  | _ => True

/-- The ticks that the loops of `timer_tick` read are over. -/
def TicksRead (s : Sys n m C) : Prop :=
  ∀ c, (s.cpus c).phase.TickBy s.ticks

theorem not_cpuAsleep_of_run (h : Inv s) (hph : (s.cpus c).phase = .run) : ¬ CpuAsleep (s.cpus c) id := by
  have hprev : (s.cpus c).prev = none := (h.cpu c).prev_eq (by simp [hph]) (by simp [hph])
  rintro (⟨-, hs | ⟨next, hs⟩⟩ | hs | hs)
  · simp [hph] at hs
  · simp [hph] at hs
  · simp [hprev] at hs
  · simp [hph] at hs

/-- A task that is taken off, or sleeps, is in no other place. -/
theorem Asleep.place (ha : Asleep s id) :
    id ∈ s.bag .sleepers ∨ (∃ c, id ∈ s.bag (.current c) ∧ (s.cpus c).phase ≠ .run) ∨ (∃ c, id ∈ s.bag (.prev c)) ∨
      ∃ c, id ∈ s.bag (.hand c) := by
  rcases ha with hs | ⟨c, ⟨hc, hph⟩ | hs | hs⟩
  · exact Or.inl (mem_ids.2 hs)
  · refine Or.inr (Or.inl ⟨c, by simp [Sys.bag, hc, TaskRef.own], fun hrun => ?_⟩)
    rcases hph with hph | ⟨next, hph⟩ <;> simp [hrun] at hph
  · exact Or.inr (Or.inr (Or.inl ⟨c, by simp [Sys.bag, hs, TaskRef.own]⟩))
  · exact Or.inr (Or.inr (Or.inr ⟨c, by simp [Sys.bag, hs, Phase.hand, TaskRef.own]⟩))

theorem Asleep.not_ready (h : Inv s) (ha : Asleep s id) : .task id ∉ s.readyQueue := by
  intro hr
  have hr : id ∈ s.bag .ready := mem_ids.2 hr
  rcases ha.place with hp | ⟨c, hp, -⟩ | ⟨c, hp⟩ | ⟨c, hp⟩ <;> cases h.place_unique hp hr

/-- It is not the task that a CPU runs outside the scheduler. -/
theorem Asleep.not_current (h : Inv s) (ha : Asleep s id) (hph : (s.cpus c).phase = .run) :
    (s.cpus c).current ≠ some (.task id) := by
  intro hc
  have hm : id ∈ s.bag (.current c) := by simp [Sys.bag, hc, TaskRef.own]
  rcases ha.place with hp | ⟨d, hp, hne⟩ | ⟨d, hp⟩ | ⟨d, hp⟩ <;> cases h.place_unique hp hm
  exact hne hph

theorem Asleep.lt_nextId (h : Inv s) (ha : Asleep s id) : id < s.nextId := by
  have hmem : ∃ p, id ∈ s.bag p := by
    rcases ha.place with hp | ⟨c, hp, -⟩ | ⟨c, hp⟩ | ⟨c, hp⟩
    · exact ⟨_, hp⟩
    · exact ⟨_, hp⟩
    · exact ⟨_, hp⟩
    · exact ⟨_, hp⟩
  obtain ⟨p, hp⟩ := hmem
  have hle : (s.bag p).count id ≤ s.count id := count_le_total p
  have hpos := List.count_pos_iff.2 hp
  by_contra hlt
  rw [h.count_eq, if_neg (by omega)] at hle
  omega

/-! ## One step -/

/-- What a step does to a task that sleeps until `wake`: nothing, or `wake` is over. -/
def Stays (s s' : Sys n m C) (id : Nat) : Prop :=
  s'.wakeTick (.task id) = s.wakeTick (.task id) ∧ (Asleep s' id ∨ s.wakeTick (.task id) ≤ s.ticks)

/-- A call on one CPU leaves the others, the sleepers and the wake tick alone. -/
theorem stays_of_run (h : Inv s) (ha : Asleep s id) (hph : (s.cpus c).phase = .run)
    (hcpus : ∀ d, d ≠ c → s'.cpus d = s.cpus d) (hsleepers : s'.sleepers = s.sleepers)
    (hwake : s'.wakeTick (.task id) = s.wakeTick (.task id)) : Stays s s' id := by
  refine ⟨hwake, Or.inl ?_⟩
  rcases ha with hs | ⟨d, hd⟩
  · exact Or.inl (by rw [hsleepers]; exact hs)
  · have hne : d ≠ c := by
      rintro rfl
      exact not_cpuAsleep_of_run h hph hd
    exact Or.inr ⟨d, by rw [hcpus d hne]; exact hd⟩

theorem setCpu_other {f : PerCpu n m C → PerCpu n m C} {d : Fin n} (hd : d ≠ c) : (s.setCpu c f).cpus d = s.cpus d :=
  Function.update_of_ne hd _ _

theorem setPhase_other {ph : Phase n m} {d : Fin n} (hd : d ≠ c) : (s.setPhase c ph).cpus d = s.cpus d :=
  Function.update_of_ne hd _ _

theorem call_stays (h : Inv s) (ha : Asleep s id) {k : Call m C} (hs : s.call c k = some s') : Stays s s' id := by
  obtain ⟨hph, hcalled, -⟩ := call_cases hs
  have hcur := ha.not_current h hph
  cases hcalled with
  | taskNew ctx =>
    refine stays_of_run h ha hph (fun _ _ => rfl) rfl ?_
    have hne : TaskRef.task id ≠ (.task s.nextId : TaskRef n) := by
      have := ha.lt_nextId h
      simp only [ne_eq, TaskRef.task.injEq]
      omega
    exact Function.update_of_ne hne _ _
  | sleep ht =>
    refine stays_of_run h ha hph (fun _ hd => setPhase_other hd) rfl ?_
    refine Function.update_of_ne ?_ _ _
    rintro rfl
    exact hcur ht
  | init => exact stays_of_run h ha hph (fun _ hd => (setCpu_other hd : (s.initThisCpu c).cpus _ = _)) rfl rfl
  | initThisCpu => exact stays_of_run h ha hph (fun _ hd => setCpu_other hd) rfl rfl
  | preempt => exact stays_of_run h ha hph (fun _ hd => (setPhase_other hd).trans (setCpu_other hd)) rfl rfl
  | spawn | take | keepsOn | goesOn | notReady | reap => exact stays_of_run h ha hph (fun _ _ => rfl) rfl rfl
  | yieldNow | exit | block | semPost | waits | wakeOne | wakeAll | timerTick =>
    exact stays_of_run h ha hph (fun _ hd => setPhase_other hd) rfl rfl

/-- A step inside the scheduler: the sleepers and the other CPUs stay, and a task that this CPU is taking off goes one
place further. -/
theorem stays_of_advance (ha : Asleep s id) (hcpus : ∀ d, d ≠ c → s'.cpus d = s.cpus d)
    (hsleepers : .task id ∈ s.sleepers → .task id ∈ s'.sleepers)
    (hcpu : CpuAsleep (s.cpus c) id → CpuAsleep (s'.cpus c) id ∨ .task id ∈ s'.sleepers)
    (hwake : s'.wakeTick (.task id) = s.wakeTick (.task id)) : Stays s s' id := by
  refine ⟨hwake, Or.inl ?_⟩
  rcases ha with hs | ⟨d, hd⟩
  · exact Or.inl (hsleepers hs)
  · by_cases hdc : d = c
    · subst hdc
      rcases hcpu hd with hd | hd
      · exact Or.inr ⟨d, hd⟩
      · exact Or.inl hd
    · exact Or.inr ⟨d, by rw [hcpus d hdc]; exact hd⟩

theorem setCpu_self {f : PerCpu n m C → PerCpu n m C} : (s.setCpu c f).cpus c = f (s.cpus c) :=
  Function.update_self _ _ _

theorem setPhase_self {ph : Phase n m} : ((s.setPhase c ph).cpus c) = { s.cpus c with phase := ph } :=
  Function.update_self _ _ _

/-- Only the phase of the CPU changes, and what the other arguments say. -/
theorem stays_of_setPhase {s₀ : Sys n m C} {ph : Phase n m} (ha : Asleep s id) (hcpus : s₀.cpus = s.cpus)
    (hsleepers : .task id ∈ s.sleepers → .task id ∈ s₀.sleepers) (hwake : s₀.wakeTick = s.wakeTick)
    (hcpu : CpuAsleep (s.cpus c) id → CpuAsleep { s.cpus c with phase := ph } id ∨ .task id ∈ s₀.sleepers) :
    Stays s (s₀.setPhase c ph) id := by
  refine stays_of_advance (c := c) ha (fun d hd => ?_) hsleepers (fun hc => ?_) (congrFun hwake _)
  · rw [setPhase_other hd, hcpus]
  · rw [setPhase_self, hcpus]
    exact hcpu hc

/-- The loop of `timer_tick` takes a task only when its tick is over. -/
theorem due_stays (hread : TicksRead s) (ha : Asleep s id) {now i : Nat} {t : TaskRef n}
    (hph : (s.cpus c).phase = .ticking now i) (ht : s.sleepers[i]? = some t) (hdue : s.wakeTick t ≤ now)
    (hprev : (s.cpus c).prev = none) :
    Stays s ({ s with sleepers := swapRemove s.sleepers i }.setPhase c (.tickWake now i t)) id := by
  by_cases hmine : t = .task id
  · rw [hmine] at hdue
    have hnow := hread c
    rw [hph] at hnow
    exact ⟨rfl, Or.inr (Nat.le_trans hdue hnow)⟩
  · refine stays_of_setPhase ha (by rfl) (fun hs => ?_) rfl (by simp [CpuAsleep, hph, hprev])
    rcases List.mem_cons.1 ((swapRemove_perm ht).mem_iff.2 hs) with heq | hs
    · exact absurd heq.symm hmine
    · exact hs

theorem advance_stays (h : Inv s) (hread : TicksRead s) (ha : Asleep s id) (hs : s.advance c = some s') :
    Stays s s' id := by
  have hnone := (h.cpu c).prev_eq
  cases advance_cases hs with
  | @picks a t rest hph hq =>
    have hprev : (s.cpus c).prev = none := hnone (by simp [hph]) (by simp [hph])
    exact stays_of_setPhase ha (by rfl) (fun hs => hs) rfl fun hc => Or.inl (by simpa [CpuAsleep, hph, hprev] using hc)
  | @idles a t hph hidle =>
    have hprev : (s.cpus c).prev = none := hnone (by simp [hph]) (by simp [hph])
    exact stays_of_setPhase ha rfl (fun hs => hs) rfl fun hc => Or.inl (by simpa [CpuAsleep, hph, hprev] using hc)
  | @installs a next prev hph hcur =>
    have hprev : (s.cpus c).prev = none := hnone (by simp [hph]) (by simp [hph])
    refine stays_of_advance ha (fun _ hd => setCpu_other hd) (fun hs => hs) (fun hc => Or.inl ?_) rfl
    rw [setCpu_self]
    simpa [CpuAsleep, hph, hprev, hcur] using hc
  | switches hph hprev hcur =>
    refine stays_of_advance ha (fun _ hd => setCpu_other hd) (fun hs => hs) (fun hc => Or.inl ?_) rfl
    rw [setCpu_self]
    simpa [CpuAsleep, hph, hprev] using hc
  | takesPrev hph hprev =>
    refine stays_of_advance ha (fun _ hd => setCpu_other hd) (fun hs => hs) (fun hc => Or.inl ?_) rfl
    rw [setCpu_self]
    simpa [CpuAsleep, hph, hprev] using hc
  | noPrev hph hprev => exact stays_of_setPhase ha rfl (fun hs => hs) rfl (by simp [CpuAsleep, hph, hprev])
  | sleeps hph =>
    have hprev : (s.cpus c).prev = none := hnone (by simp [hph]) (by simp [hph])
    refine stays_of_setPhase ha (by rfl) (List.mem_append_left _) rfl fun hc => Or.inr ?_
    obtain rfl : _ = TaskRef.task id := by simpa [CpuAsleep, hph, hprev] using hc
    exact List.mem_append_right _ (List.mem_singleton_self _)
  | due hph ht hdue => exact due_stays hread ha hph ht hdue (hnone (by simp [hph]) (by simp [hph]))
  | ticked hph =>
    have hprev : (s.cpus c).prev = none := hnone (by simp [hph]) (by simp [hph])
    refine stays_of_advance ha (fun _ hd => setCpu_other hd) (fun hs => hs) (fun hc => ?_) rfl
    simp [CpuAsleep, hph, hprev] at hc
  | staysOn hph | restsIdle hph | readies hph | dies hph | parks hph | woke hph | wakes hph | notDue hph | tickWakes hph =>
    have hprev : (s.cpus c).prev = none := hnone (by simp [hph]) (by simp [hph])
    exact stays_of_setPhase ha (by rfl) (fun hs => hs) rfl (by simp [CpuAsleep, hph, hprev])

theorem step_stays (h : Inv s) (hread : TicksRead s) (ha : Asleep s id) {e : Event m C} (hs : s.step c e = some s') :
    Stays s s' id := by
  cases e with
  | call k => exact call_stays h ha hs
  | advance => exact advance_stays h hread ha hs
  | compute regs =>
    cases hs
    refine stays_of_advance ha (fun _ hd => Function.update_of_ne hd _ _) (fun hs => hs)
      (fun hc => Or.inl ?_) rfl
    have he : (s.compute c regs).cpus c = { s.cpus c with regs := regs } := Function.update_self _ _ _
    rw [he]
    exact hc
  | clock =>
    cases hs
    exact stays_of_advance (c := c) ha (fun _ _ => rfl) (fun hs => hs) Or.inl rfl

/-! ## The tick that a loop read -/

theorem TicksRead.setCpu {s₀ : Sys n m C} (h : TicksRead s) (hcpus : s₀.cpus = s.cpus) (hticks : s₀.ticks = s.ticks)
    {f : PerCpu n m C → PerCpu n m C} (hf : (f (s.cpus c)).phase.TickBy s.ticks) : TicksRead (s₀.setCpu c f) := by
  intro d
  show ((s₀.setCpu c f).cpus d).phase.TickBy s₀.ticks
  rw [hticks]
  by_cases hd : d = c
  · subst hd
    rw [setCpu_self, hcpus]
    exact hf
  · rw [setCpu_other hd, hcpus]
    exact h d

theorem TicksRead.setPhase {s₀ : Sys n m C} (h : TicksRead s) (hcpus : s₀.cpus = s.cpus) (hticks : s₀.ticks = s.ticks)
    {ph : Phase n m} (hph : ph.TickBy s.ticks) : TicksRead (s₀.setPhase c ph) :=
  h.setCpu hcpus hticks hph

theorem call_ticksRead (h : TicksRead s) {k : Call m C} (hs : s.call c k = some s') : TicksRead s' := by
  have hrun := h c
  obtain ⟨-, hcalled, -⟩ := call_cases hs
  cases hcalled with
  | init =>
    exact h.setCpu rfl rfl (f := fun cpu => { cpu with idle := some (.idle c), current := some (.idle c) }) hrun
  | initThisCpu => exact h.setCpu rfl rfl hrun
  | preempt => exact (h.setCpu (f := fun cpu => { cpu with slice := timeSlice }) rfl rfl hrun).setPhase rfl rfl trivial
  | timerTick => exact h.setPhase rfl rfl (Nat.le_refl _)
  | taskNew | spawn | take | keepsOn | goesOn | notReady | reap => exact h
  | yieldNow | sleep | exit | block | semPost | waits | wakeOne | wakeAll => exact h.setPhase rfl rfl trivial

theorem advance_ticksRead (h : TicksRead s) (hs : s.advance c = some s') : TicksRead s' := by
  have hc := h c
  cases advance_cases hs with
  | due hph | notDue hph | tickWakes hph =>
    rw [hph] at hc
    exact h.setPhase rfl rfl hc
  | installs | switches | takesPrev | ticked => exact h.setCpu (by rfl) (by rfl) trivial
  | picks | idles | staysOn | noPrev | restsIdle | readies | sleeps | dies | parks | woke | wakes =>
    exact h.setPhase rfl rfl trivial

theorem step_ticksRead (h : TicksRead s) {e : Event m C} (hs : s.step c e = some s') : TicksRead s' := by
  cases e with
  | call k => exact call_ticksRead h hs
  | advance => exact advance_ticksRead h hs
  | compute regs =>
    cases hs
    exact h.setCpu (f := fun cpu => { cpu with regs := regs }) rfl rfl (h c)
  | clock =>
    cases hs
    intro d
    have hd := h d
    change (s.cpus d).phase.TickBy (s.ticks + 1)
    generalize (s.cpus d).phase = ph at hd
    cases ph with
    | ticking now i => exact Nat.le_succ_of_le hd
    | tickWake now i t => exact Nat.le_succ_of_le hd
    | _ => trivial

/-! ## Runs -/

theorem boot_ticksRead (counts : Fin m → Int) (regs : Fin n → C) (zero : C) : TicksRead (Sys.boot counts regs zero) :=
  fun _ => trivial

theorem run_ticksRead : ∀ (es : List (Fin n × Event m C)) {s s' : Sys n m C}, TicksRead s → s.run es = some s' →
    TicksRead s'
  | [], _, _, h, hs => by cases hs; exact h
  | (c, e) :: es, s, s', h, hs => by
    obtain ⟨s₁, hs₁, hs₂⟩ := Option.bind_eq_some_iff.1 hs
    exact run_ticksRead es (step_ticksRead h hs₁) hs₂

theorem call_ticks {k : Call m C} (hs : s.call c k = some s') : s'.ticks = s.ticks := by
  obtain ⟨-, hcalled, -⟩ := call_cases hs
  cases hcalled <;> rfl

theorem advance_ticks (hs : s.advance c = some s') : s'.ticks = s.ticks := by
  cases advance_cases hs <;> rfl

theorem step_ticks {e : Event m C} (hs : s.step c e = some s') : s.ticks ≤ s'.ticks := by
  cases e with
  | call k => exact Nat.le_of_eq (call_ticks hs).symm
  | advance => exact Nat.le_of_eq (advance_ticks hs).symm
  | compute regs => cases hs; exact Nat.le_refl _
  | clock => cases hs; exact Nat.le_succ _

theorem run_ticks : ∀ (es : List (Fin n × Event m C)) {s s' : Sys n m C}, s.run es = some s' → s.ticks ≤ s'.ticks
  | [], _, _, hs => by cases hs; exact Nat.le_refl _
  | (c, e) :: es, s, s', hs => by
    obtain ⟨s₁, hs₁, hs₂⟩ := Option.bind_eq_some_iff.1 hs
    exact Nat.le_trans (step_ticks hs₁) (run_ticks es hs₂)

/-- A task sleeps on until its tick. -/
theorem run_stays : ∀ (es : List (Fin n × Event m C)) {s s' : Sys n m C}, Inv s → TicksRead s → Asleep s id →
    s.run es = some s' → s'.ticks < s.wakeTick (.task id) →
    Asleep s' id ∧ s'.wakeTick (.task id) = s.wakeTick (.task id) := by
  intro es
  induction es with
  | nil =>
    intro s s' _ _ ha hs _
    cases hs
    exact ⟨ha, rfl⟩
  | cons x es ih =>
    intro s s' h hread ha hs hlt
    obtain ⟨s₁, hs₁, hs₂⟩ := Option.bind_eq_some_iff.1 hs
    obtain ⟨hwake, hstay⟩ := step_stays h hread ha hs₁
    rcases hstay with ha₁ | hdue
    · obtain ⟨ha', hwake'⟩ := ih (step_inv h hs₁) (step_ticksRead hread hs₁) ha₁ hs₂ (by rw [hwake]; exact hlt)
      exact ⟨ha', hwake'.trans hwake⟩
    · have := run_ticks _ hs
      omega

/-- The call of `sleep` by the task that the CPU runs. -/
theorem sleep_asleep {ticks ms : Nat} (hcur : (s.cpus c).current = some (.task id))
    (hs : s.step c (.call (.sleep ticks ms)) = some s') :
    Asleep s' id ∧ s'.wakeTick (.task id) = Sys.sleepUntil ticks ms := by
  obtain ⟨-, hcalled, -⟩ := call_cases hs
  cases hcalled with
  | sleep htask =>
    rw [hcur] at htask
    cases htask
    refine ⟨Or.inr ⟨c, Or.inl ?_⟩, Function.update_self _ _ _⟩
    rw [setPhase_self]
    exact ⟨hcur, Or.inl rfl⟩

/-- **A task that called `sleep`** is not made ready before the tick it computed, whatever the CPUs do. -/
theorem asleep_until (counts : Fin m → Int) (regs : Fin n → C) (zero : C) (es es' : List (Fin n × Event m C))
    {s₁ : Sys n m C} {ticks ms : Nat} (hs : (Sys.boot counts regs zero).run es = some s)
    (hcur : (s.cpus c).current = some (.task id)) (hcall : s.step c (.call (.sleep ticks ms)) = some s₁)
    (hrun : s₁.run es' = some s') (hready : .task id ∈ s'.readyQueue) : Sys.sleepUntil ticks ms ≤ s'.ticks := by
  have h := run_inv es (boot_inv counts regs zero) hs
  have hread := run_ticksRead es (boot_ticksRead counts regs zero) hs
  have h₁ := step_inv h hcall
  obtain ⟨ha, hwake⟩ := sleep_asleep hcur hcall
  by_contra hlt
  obtain ⟨ha', -⟩ := run_stays es' h₁ (step_ticksRead hread hcall) ha hrun (by omega)
  exact ha'.not_ready (run_inv es' h₁ hrun) hready

end Asleep

end Koros.Sched
