import Koros.Fd.Sockets

/-!
# Ephemeral ports

`net::socket` and `net::close` of `korix/src/net.rs`, called in any order: the local ports that the sockets get from the
counter `NEXT_PORT`, a `u16` that starts at 49152 and wraps around, and the socket set of smoltcp after a call that fails.

- `World.netSocket_spec`: everything that a creation can do;
- **`ports_held`**: in a run in which the counter is no lower than 49152 at each creation and not the port of an open socket
  of the same kind, the ports are ephemeral and distinct, and a call that fails leaves the set alone;
- `portFree_of_few`: as long as at most 16384 sockets were made since boot it is so;
- `ports_run_out`: 16384 sockets, one at a time, and the next one gets port 0.
-/
set_option autoImplicit false

namespace Koros.Fd

open Koros.Lib

inductive NetEvent where
  | socket (kind : Nat)
  | close (id : Nat)
deriving DecidableEq, Repr

section Ports

variable {A : SocketApi} {w w' : World A}

/-- A call of `net::socket` or `net::close`. -/
def World.netStep (w : World A) : NetEvent → Option (World A)
  | .socket kind => some (w.netSocket kind).2
  | .close id => some (w.netClose id).2

/-- How many sockets are open. -/
def World.openCount (w : World A) : Nat := w.stack.elim 0 fun stack => stack.states.size

/-- `SocketKind` of the type that the caller names. -/
def socketKind (kind : Nat) : Option SocketKind := if kind = 1 then some .tcp else if kind = 2 then some .udp else none

/-- The local ports are ephemeral, and distinct for sockets of one kind. -/
structure PortsOk (w : World A) : Prop where
  range : ∀ id state, w.socketState id = some state → 49152 ≤ state.localPort ∧ state.localPort ≤ 65535
  distinct : ∀ id id' state state', w.socketState id = some state → w.socketState id' = some state' → id ≠ id' →
    state.kind = state'.kind → state.localPort ≠ state'.localPort

/-- A creation that fails leaves the socket set as it is. -/
def FailureKeeps (w : World A) (e : NetEvent) (w' : World A) : Prop :=
  ∀ kind error, e = .socket kind → (w.netSocket kind).1 = .error error →
    w'.stack.map (·.sockets) = w.stack.map (·.sockets)

/-- The counter is an ephemeral port, and not that of an open socket of the kind. -/
def PortFree (w : World A) : NetEvent → Prop
  | .socket kind => ∀ k, socketKind kind = some k → w.stack.isSome → 49152 ≤ w.nextPort ∧
      ∀ id state, w.socketState id = some state → state.kind = k → state.localPort ≠ w.nextPort
  | .close _ => True

/-! ## The calls -/

theorem socketState_of_stack {stack : NetworkStack A} (h : w.stack = some stack) (id : Nat) :
    w.socketState id = stack.states[id]? := by
  rw [World.socketState, h, Option.bind_some]

/-- **What a creation does**: it fails before it begins, or the new socket cannot be bound and stays in the set, or it is
entered with the port of the counter. -/
theorem World.netSocket_spec (w : World A) (kind : Nat) :
    ((w.stack = none ∨ socketKind kind = none) ∧ ∃ error, w.netSocket kind = (.error error, w)) ∨
    ∃ stack k w₁, w.stack = some stack ∧ socketKind kind = some k ∧ w₁.nextPort = (w.nextPort + 1) % 2 ^ 16 ∧
      ((k = .udp ∧ w.nextPort = 0 ∧ w.netSocket kind = (.error (-98), w₁) ∧
          w₁.stack = some ⟨(A.add stack.sockets).2, stack.states⟩) ∨
        (¬ (k = .udp ∧ w.nextPort = 0) ∧ w.netSocket kind = (.ok w.nextSocket, w₁) ∧
          w₁.nextSocket = (w.nextSocket + 1) % 2 ^ 64 ∧
          w₁.stack = some ⟨(A.add stack.sockets).2,
            stack.states.insert w.nextSocket ⟨k, (A.add stack.sockets).1, w.nextPort⟩⟩)) := by
  unfold World.netSocket
  split
  · next hs => exact .inl ⟨.inl hs, _, rfl⟩
  next stack hs =>
  split
  · next hk => exact .inl ⟨.inr hk, _, rfl⟩
  next k hk =>
  have hbind : A.bind w.nextPort = false ↔ w.nextPort = 0 := by
    rw [← Bool.not_eq_true, A.bind_iff, ne_eq, not_not]
  dsimp only
  split
  · next hfail => exact .inr ⟨stack, k, _, hs, hk, rfl, .inl ⟨hfail.1, hbind.1 hfail.2, rfl, rfl⟩⟩
  · next hfail =>
    refine .inr ⟨stack, k, _, hs, hk, rfl, .inr ⟨fun h => hfail ⟨h.1, hbind.2 h.2⟩, rfl, rfl, rfl⟩⟩

/-- A stream socket is made whatever the counter is. -/
theorem World.netSocket_tcp {stack : NetworkStack A} (hs : w.stack = some stack) : ∃ w₁,
    w.netStep (.socket 1) = some w₁ ∧ w₁.nextPort = (w.nextPort + 1) % 2 ^ 16 ∧
      w₁.nextSocket = (w.nextSocket + 1) % 2 ^ 64 ∧
      w₁.stack = some ⟨(A.add stack.sockets).2,
        stack.states.insert w.nextSocket ⟨.tcp, (A.add stack.sockets).1, w.nextPort⟩⟩ := by
  rcases w.netSocket_spec 1 with ⟨hno, -⟩ | ⟨stack', k, w₁, hs', hk, hport, hcase⟩
  · exact absurd hno (by simp [hs, socketKind])
  obtain rfl := Option.some.inj (hs.symm.trans hs')
  cases hk
  obtain ⟨-, hcall, hnext, hstack⟩ := hcase.resolve_left fun h => absurd h.1 nofun
  refine ⟨w₁, ?_, hport, hnext, hstack⟩
  rw [World.netStep, hcall]

/-- A datagram socket that the counter would put on port 0 is refused, and stays in the set. -/
theorem World.netSocket_udp {stack : NetworkStack A} (hs : w.stack = some stack) (hzero : w.nextPort = 0) : ∃ w₁,
    (w.netSocket 2).1 = .error (-98) ∧ w.netStep (.socket 2) = some w₁ ∧
      w₁.stack = some ⟨(A.add stack.sockets).2, stack.states⟩ := by
  rcases w.netSocket_spec 2 with ⟨hno, -⟩ | ⟨stack', k, w₁, hs', hk, -, hcase⟩
  · exact absurd hno (by simp [hs, socketKind])
  obtain rfl := Option.some.inj (hs.symm.trans hs')
  cases hk
  obtain ⟨-, -, hcall, hstack⟩ := hcase.resolve_right fun h => h.1 ⟨rfl, hzero⟩
  refine ⟨w₁, by rw [hcall], ?_, hstack⟩
  rw [World.netStep, hcall]

/-- A close forgets the socket. -/
theorem World.netClose_spec (w : World A) (id : Nat) : (w.socketState id = none ∧ (w.netClose id).2 = w) ∨
    ∃ stack state, w.stack = some stack ∧ stack.states[id]? = some state ∧
      (w.netClose id).2 = { w with stack := some ⟨A.remove stack.sockets state.handle, stack.states.erase id⟩ } := by
  unfold World.netClose
  split
  · next hs => exact .inl ⟨by rw [World.socketState, hs, Option.bind_none], rfl⟩
  next stack hs =>
  split
  · next hnone => exact .inl ⟨(socketState_of_stack hs id).trans hnone, rfl⟩
  · next state hstate => exact .inr ⟨stack, state, hs, hstate, rfl⟩

theorem PortsOk.socket (h : PortsOk w) (hlt : w.nextPort < 2 ^ 16) {kind : Nat} (hfree : PortFree w (.socket kind)) :
    PortsOk (w.netSocket kind).2 := by
  rcases w.netSocket_spec kind with ⟨-, e, hcall⟩ | ⟨stack, k, w₁, hs, hk, -, hcase⟩
  · rw [hcall]
    exact h
  have hopen := socketState_of_stack hs
  rcases hcase with ⟨-, -, hcall, hstack⟩ | ⟨-, hcall, -, hstack⟩
  · have hsame : ∀ id, w₁.socketState id = w.socketState id := fun id => by
      rw [socketState_of_stack hstack, hopen]
    rw [hcall]
    refine ⟨fun id state hid => h.range id state (hsame id ▸ hid), fun id id' state state' hid hid' => ?_⟩
    exact h.distinct id id' state state' (hsame id ▸ hid) (hsame id' ▸ hid')
  · obtain ⟨hlow, hnot⟩ := hfree k hk (by rw [hs]; rfl)
    -- the new socket, or one that was there
    have hcases : ∀ id state, w₁.socketState id = some state →
        (id = w.nextSocket ∧ state.kind = k ∧ state.localPort = w.nextPort) ∨
        (id ≠ w.nextSocket ∧ w.socketState id = some state) := by
      intro id state hid
      rw [socketState_of_stack hstack, getElem?_insertKey] at hid
      split at hid
      · next heq =>
        cases hid
        exact .inl ⟨heq, rfl, rfl⟩
      · next hne => exact .inr ⟨hne, (hopen id).trans hid⟩
    rw [hcall]
    constructor
    · intro id state hid
      rcases hcases id state hid with ⟨-, -, hport⟩ | ⟨-, hold⟩
      · rw [hport]
        exact ⟨hlow, by omega⟩
      · exact h.range id state hold
    · intro id id' state state' hid hid' hne hkind
      rcases hcases id state hid with ⟨hnew, hk₁, hport⟩ | ⟨-, hold⟩
      · rcases hcases id' state' hid' with ⟨hnew', -, -⟩ | ⟨-, hold'⟩
        · exact absurd (hnew.trans hnew'.symm) hne
        · rw [hport]
          exact (hnot id' state' hold' (hkind ▸ hk₁)).symm
      · rcases hcases id' state' hid' with ⟨-, hk₁, hport⟩ | ⟨-, hold'⟩
        · rw [hport]
          exact hnot id state hold (hkind.trans hk₁)
        · exact h.distinct id id' state state' hold hold' hne hkind

theorem PortsOk.close (h : PortsOk w) (id : Nat) : PortsOk (w.netClose id).2 := by
  have hstill : ∀ i s, (w.netClose id).2.socketState i = some s → w.socketState i = some s := by
    intro i s hi
    rw [netClose_socketState] at hi
    split at hi
    · cases hi
    · exact hi
  exact ⟨fun i s hi => h.range i s (hstill i s hi),
    fun i i' s s' hi hi' => h.distinct i i' s s' (hstill i s hi) (hstill i' s' hi')⟩

/-- With a counter other than 0 a creation that fails does so before it begins. -/
theorem failureKeeps_of_portFree {e : NetEvent} (hfree : PortFree w e) (hs : w.netStep e = some w') : FailureKeeps w e w' := by
  rintro kind error rfl herror
  cases hs
  rcases w.netSocket_spec kind with ⟨-, e, hcall⟩ | ⟨stack, k, w₁, hstack, hk, -, hcase⟩
  · rw [hcall]
  · obtain ⟨hlow, -⟩ := hfree k hk (by rw [hstack]; rfl)
    rcases hcase with ⟨-, hzero, -, -⟩ | ⟨-, hcall, -, -⟩
    · omega
    · rw [hcall] at herror
      cases herror

/-- The port counter stays a `u16`. -/
theorem nextPort_lt {e : NetEvent} (h : w.nextPort < 2 ^ 16) (hs : w.netStep e = some w') : w'.nextPort < 2 ^ 16 := by
  cases e with
  | socket kind =>
    cases hs
    rcases w.netSocket_spec kind with ⟨-, e, hcall⟩ | ⟨stack, k, w₁, -, -, hport, hcase⟩
    · rwa [hcall]
    · have hsnd : (w.netSocket kind).2 = w₁ := by
        rcases hcase with ⟨-, -, hcall, -⟩ | ⟨-, hcall, -, -⟩
        · rw [hcall]
        · rw [hcall]
      rw [hsnd, hport]
      exact Nat.mod_lt _ (by decide)
  | close id =>
    cases hs
    rcases w.netClose_spec id with ⟨-, hcall⟩ | ⟨stack, state, -, -, hcall⟩
    · rwa [hcall]
    · rwa [hcall]

/-- What a step keeps. -/
theorem netStep_inv {e : NetEvent} (h : PortsOk w ∧ w.nextPort < 2 ^ 16) (hfree : PortFree w e) (hs : w.netStep e = some w') :
    PortsOk w' ∧ w'.nextPort < 2 ^ 16 := by
  refine ⟨?_, nextPort_lt h.2 hs⟩
  cases e with
  | socket kind =>
    cases hs
    exact h.1.socket h.2 hfree
  | close id =>
    cases hs
    exact h.1.close id

theorem boot_portsOk (A : SocketApi) (network : Bool) : PortsOk (World.boot A network) := by
  have hnone : ∀ id, (World.boot A network).socketState id = none := by
    intro id
    cases network with
    | false => rfl
    | true => simp [World.socketState, World.boot]
  exact ⟨fun id state h => absurd ((hnone id).symm.trans h) (by simp),
    fun id _ state _ h => absurd ((hnone id).symm.trans h) (by simp)⟩

/-- **Ephemeral ports**, in every run of creations and closes in which the counter is a free ephemeral port at each
creation. -/
theorem ports_held (A : SocketApi) (network : Bool) (events : List NetEvent)
    (hfree : Meets World.netStep PortFree (World.boot A network) events) :
    Visits World.netStep PortsOk (World.boot A network) events ∧
      Takes World.netStep FailureKeeps (World.boot A network) events := by
  have hport : (World.boot A network).nextPort < 2 ^ 16 := (by decide : 49152 < 2 ^ 16)
  have hboot : PortsOk (World.boot A network) ∧ (World.boot A network).nextPort < 2 ^ 16 := ⟨boot_portsOk A network, hport⟩
  have hinv : Visits World.netStep (fun w => PortsOk w ∧ w.nextPort < 2 ^ 16) (World.boot A network) events :=
    Visits.of_step (fun _ _ _ h hok hs => netStep_inv h hok hs) hboot hfree
  have hstep : ∀ (w : World A) (e : NetEvent) (w' : World A), (PortsOk w ∧ w.nextPort < 2 ^ 16) → PortFree w e →
      w.netStep e = some w' → (PortsOk w' ∧ w'.nextPort < 2 ^ 16) ∧ FailureKeeps w e w' :=
    fun w e w' h hok hs => ⟨netStep_inv h hok hs, failureKeeps_of_portFree hok hs⟩
  exact ⟨hinv.imp fun _ h => h.1, Takes.of_step hstep hboot hfree⟩

end Ports

/-! ## Runs -/

/-- Sockets are made and closed, one at a time. -/
def churn : Nat → List NetEvent
  | 0 => []
  | n + 1 => churn n ++ [.socket 1, .close (n + 1)]

/-- No socket is open, and the counters have gone up by `n`. -/
structure Churned (A : SocketApi) (n : Nat) (w : World A) : Prop where
  port : w.nextPort = (49152 + n) % 2 ^ 16
  socket : w.nextSocket = n + 1
  stack : ∃ stack, w.stack = some stack ∧ stack.states.size = 0

theorem Churned.none {A : SocketApi} {n : Nat} {w : World A} (h : Churned A n w) {stack : NetworkStack A}
    (hs : w.stack = some stack) (id : Nat) : stack.states.contains id = false := by
  obtain ⟨stack', hs', hsize⟩ := h.stack
  obtain rfl := Option.some.inj (hs.symm.trans hs')
  have hempty : stack.states.isEmpty = true := by
    rw [Std.TreeMap.isEmpty_eq_size_eq_zero, hsize]
    rfl
  exact Std.TreeMap.contains_of_isEmpty hempty

/-- One socket more. -/
theorem Churned.next {A : SocketApi} {n : Nat} {w : World A} (hn : n + 2 < 2 ^ 64) (h : Churned A n w) :
    Visits World.netStep (·.openCount ≤ 1) w [.socket 1, .close (n + 1)] ∧
      ∃ w', runs World.netStep w [.socket 1, .close (n + 1)] = some w' ∧ Churned A (n + 1) w' := by
  obtain ⟨stack, hs, hsize⟩ := h.stack
  have habsent := h.none hs (n + 1)
  obtain ⟨w₁, hstep, hport, hnext, hstack⟩ := World.netSocket_tcp hs
  rw [h.socket] at hnext hstack
  rcases w₁.netClose_spec (n + 1) with ⟨hnone, -⟩ | ⟨stack₁, state, hs₁, -, hclose⟩
  · rw [socketState_of_stack hstack, getElem?_insertKey, if_pos rfl] at hnone
    cases hnone
  · obtain rfl := Option.some.inj (hstack.symm.trans hs₁)
    have hsize₁ : w₁.openCount = 1 := by simp [World.openCount, hstack, Std.TreeMap.size_insert, habsent, hsize]
    have hstep₁ : w₁.netStep (.close (n + 1)) = some (w₁.netClose (n + 1)).2 := rfl
    have hsize₂ : (w₁.netClose (n + 1)).2.openCount = 0 := by
      rw [hclose]
      simp [World.openCount, Std.TreeMap.size_erase, Std.TreeMap.size_insert, habsent, hsize]
    refine ⟨⟨?_, fun w' hw' => ⟨?_, fun w'' hw'' => ?_⟩⟩, (w₁.netClose (n + 1)).2, ?_, ?_⟩
    · simp [World.openCount, hs, hsize]
    · obtain rfl := Option.some.inj (hstep.symm.trans hw')
      exact Nat.le_of_eq hsize₁
    · obtain rfl := Option.some.inj (hstep.symm.trans hw')
      obtain rfl := Option.some.inj (hstep₁.symm.trans hw'')
      show (w₁.netClose (n + 1)).2.openCount ≤ 1
      omega
    · simp only [runs, hstep, Option.bind_some, hstep₁]
    · rw [hclose]
      refine ⟨?_, ?_, _, rfl, ?_⟩
      · show w₁.nextPort = _
        rw [hport, h.port]
        omega
      · show w₁.nextSocket = _
        rw [hnext]
        omega
      · simp [Std.TreeMap.size_erase, Std.TreeMap.size_insert, habsent, hsize]

/-- `n` sockets, one at a time. -/
theorem churn_run (A : SocketApi) (n : Nat) (hn : n + 2 < 2 ^ 64) :
    Visits World.netStep (·.openCount ≤ 1) (World.boot A true) (churn n) ∧
      ∃ w, runs World.netStep (World.boot A true) (churn n) = some w ∧ Churned A n w := by
  induction n with
  | zero => exact ⟨by simp [churn, Visits, World.openCount, World.boot], _, rfl, rfl, rfl, _, rfl, rfl⟩
  | succ n ih =>
    obtain ⟨hvisits, w, hrun, hw⟩ := ih (by omega)
    obtain ⟨hmore, w', hrun', hw'⟩ := hw.next (by omega)
    refine ⟨hvisits.append hrun hmore, w', ?_, hw'⟩
    rw [churn, runs_append, hrun, Option.bind_some, hrun']

/-- When the counter is back at 0 a stream socket gets port 0, and a datagram socket is refused and stays in the set. -/
theorem churned_runs_out {n : Nat} (hn : n + 2 < 2 ^ 64) (hwrap : (49152 + n) % 2 ^ 16 = 0) :
    (Visits World.netStep (·.openCount ≤ 16384) (World.boot numberedSockets true) (churn n ++ [.socket 1]) ∧
      ¬ Visits World.netStep PortsOk (World.boot numberedSockets true) (churn n ++ [.socket 1])) ∧
    (Visits World.netStep (·.openCount ≤ 16384) (World.boot numberedSockets true) (churn n ++ [.socket 2]) ∧
      ¬ Takes World.netStep FailureKeeps (World.boot numberedSockets true) (churn n ++ [.socket 2])) := by
  obtain ⟨hvisits, w, hrun, hw⟩ := churn_run numberedSockets n hn
  have hfew : Visits World.netStep (·.openCount ≤ 16384) (World.boot numberedSockets true) (churn n) :=
    hvisits.imp fun _ h => Nat.le_trans h (by decide)
  obtain ⟨stack, hs, hsize⟩ := hw.stack
  have hzero : w.nextPort = 0 := hw.port.trans hwrap
  have hcount : w.openCount = 0 := by simp [World.openCount, hs, hsize]
  have habsent := hw.none hs w.nextSocket
  obtain ⟨w₁, hstep₁, -, -, hstack₁⟩ := World.netSocket_tcp hs
  obtain ⟨w₂, herror, hstep₂, hstack₂⟩ := World.netSocket_udp hs hzero
  refine ⟨⟨?_, fun hports => ?_⟩, ?_, fun hkeeps => ?_⟩
  · refine hfew.append hrun ⟨by omega, fun w' hw' => ?_⟩
    obtain rfl := Option.some.inj (hstep₁.symm.trans hw')
    show w₁.openCount ≤ 16384
    simp [World.openCount, hstack₁, Std.TreeMap.size_insert, habsent, hsize]
  · have hend : runs World.netStep (World.boot numberedSockets true) (churn n ++ [.socket 1]) = some w₁ := by
      rw [runs_concat, hrun, Option.bind_some, hstep₁]
    have hrange := (hports.last hend).range w.nextSocket ⟨.tcp, (numberedSockets.add stack.sockets).1, w.nextPort⟩
      (by rw [socketState_of_stack hstack₁, getElem?_insertKey, if_pos rfl])
    have hlow : 49152 ≤ w.nextPort := hrange.1
    omega
  · refine hfew.append hrun ⟨by omega, fun w' hw' => ?_⟩
    obtain rfl := Option.some.inj (hstep₂.symm.trans hw')
    show w₂.openCount ≤ 16384
    simp [World.openCount, hstack₂, hsize]
  · have hsame := (hkeeps.last hrun hstep₂) 2 (-98) rfl herror
    rw [hstack₂, hs, Option.map_some, Option.map_some, Option.some.injEq] at hsame
    -- the set has the new handle
    have hmem := (numberedSockets.mem_add stack.sockets (numberedSockets.add stack.sockets).1).2 (.inl rfl)
    rw [show (numberedSockets.add stack.sockets).2 = stack.sockets from hsame] at hmem
    exact numberedSockets.add_new stack.sockets hmem

/-- **The ports run out** after 16384 sockets, of which one was open at a time. -/
theorem ports_run_out :
    (Visits World.netStep (·.openCount ≤ 16384) (World.boot numberedSockets true) (churn 16384 ++ [.socket 1]) ∧
      ¬ Visits World.netStep PortsOk (World.boot numberedSockets true) (churn 16384 ++ [.socket 1])) ∧
    (Visits World.netStep (·.openCount ≤ 16384) (World.boot numberedSockets true) (churn 16384 ++ [.socket 2]) ∧
      ¬ Takes World.netStep FailureKeeps (World.boot numberedSockets true) (churn 16384 ++ [.socket 2])) :=
  churned_runs_out (by decide) (by decide)

/-! ### Few creations -/

def NetEvent.creates : NetEvent → Bool
  | .socket _ => true
  | .close _ => false

/-- At most `j` sockets were made, each with a port below the counter. -/
def Few {A : SocketApi} (j : Nat) (w : World A) : Prop :=
  ∃ i ≤ j, w.nextPort = (49152 + i) % 2 ^ 16 ∧ ∀ id state, w.socketState id = some state → state.localPort < 49152 + i

section Few

variable {A : SocketApi} {w w' : World A} {j : Nat}

theorem Few.portFree (h : Few j w) (hj : j < 16384) (kind : Nat) : PortFree w (.socket kind) := by
  obtain ⟨i, hi, hport, hbelow⟩ := h
  refine fun k _ _ => ⟨by omega, fun id state hid _ => ?_⟩
  have := hbelow id state hid
  omega

theorem Few.socket (h : Few j w) (hj : j < 16384) (kind : Nat) : Few (j + 1) (w.netSocket kind).2 := by
  obtain ⟨i, hi, hport, hbelow⟩ := h
  rcases w.netSocket_spec kind with ⟨-, e, hcall⟩ | ⟨stack, k, w₁, hs, -, hport₁, hcase⟩
  · rw [hcall]
    exact ⟨i, by omega, hport, hbelow⟩
  have hopen := socketState_of_stack hs
  rcases hcase with ⟨-, -, hcall, hstack⟩ | ⟨-, hcall, -, hstack⟩
  · rw [hcall]
    refine ⟨i + 1, by omega, by rw [hport₁]; omega, fun id state hid => ?_⟩
    rw [socketState_of_stack hstack, ← hopen] at hid
    have := hbelow id state hid
    omega
  · rw [hcall]
    refine ⟨i + 1, by omega, by rw [hport₁]; omega, fun id state hid => ?_⟩
    rw [socketState_of_stack hstack, getElem?_insertKey] at hid
    split at hid
    · cases hid
      show w.nextPort < _
      omega
    · have := hbelow id state ((hopen id).trans hid)
      omega

theorem Few.close (h : Few j w) (id : Nat) : Few j (w.netClose id).2 := by
  obtain ⟨i, hi, hport, hbelow⟩ := h
  have hsame : (w.netClose id).2.nextPort = w.nextPort := by
    rcases w.netClose_spec id with ⟨-, hcall⟩ | ⟨stack, state, -, -, hcall⟩
    · rw [hcall]
    · rw [hcall]
  refine ⟨i, hi, hsame.trans hport, fun id' state hid => ?_⟩
  rw [netClose_socketState] at hid
  split at hid
  · cases hid
  · exact hbelow id' state hid

/-- **At most 16384 creations** keep the counter a free ephemeral port. -/
theorem portFree_of_few : ∀ (events : List NetEvent) {w : World A} {j : Nat}, Few j w →
    j + events.countP NetEvent.creates ≤ 16384 → Meets World.netStep PortFree w events
  | [], _, _, _, _ => trivial
  | .socket kind :: events, w, j, h, hle => by
    rw [List.countP_cons_of_pos rfl] at hle
    refine ⟨h.portFree (by omega) kind, fun w' hs => ?_⟩
    cases hs
    exact portFree_of_few events (h.socket (by omega) kind) (by omega)
  | .close id :: events, w, j, h, hle => by
    rw [List.countP_cons_of_neg (by simp [NetEvent.creates])] at hle
    refine ⟨trivial, fun w' hs => ?_⟩
    cases hs
    exact portFree_of_few events (h.close id) hle

theorem boot_few (A : SocketApi) (network : Bool) : Few 0 (World.boot A network) := by
  refine ⟨0, Nat.le_refl 0, rfl, fun id state h => ?_⟩
  cases network with
  | false => cases h
  | true => simp [World.socketState, World.boot] at h

end Few

/-- Sockets of both kinds, one of which is closed before the last two are made. -/
def mixedSockets : List NetEvent := [.socket 1, .socket 2, .socket 1, .close 1, .socket 2, .socket 1]

theorem ports_held_mixed :
    Visits World.netStep PortsOk (World.boot numberedSockets true) mixedSockets ∧
      Takes World.netStep FailureKeeps (World.boot numberedSockets true) mixedSockets ∧
      (runs World.netStep (World.boot numberedSockets true) mixedSockets).map
        (fun w => [1, 2, 3, 4, 5].map fun id => (w.socketState id).map (·.localPort)) =
        some [none, some 49153, some 49154, some 49155, some 49156] := by
  have hfree : Meets World.netStep PortFree (World.boot numberedSockets true) mixedSockets :=
    portFree_of_few mixedSockets (boot_few numberedSockets true) (by decide)
  obtain ⟨hports, hkeeps⟩ := ports_held numberedSockets true mixedSockets hfree
  exact ⟨hports, hkeeps, by decide +kernel⟩

end Koros.Fd
