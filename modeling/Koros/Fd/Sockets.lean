import Koros.Fd.Integrity

/-!
# How long a socket lives

A descriptor refers to an internal socket by its number. `net::close` is called by `sys_close` alone, for the descriptor
that is closed, whether or not another descriptor refers to the same socket; `sys_dup2` and `exit_current` drop
descriptors without it, and `net::socket` leaves a UDP socket behind that cannot be bound.

`Lifetime` says that a socket is in the network stack exactly as long as a descriptor of a running process refers to it.
`Careful` is the condition on a call under which it stays so, and **`socket_lifetime`** says so of every run.
-/
set_option autoImplicit false

namespace Koros.Fd

open Koros.Lib

section Sockets

variable {A : SocketApi} {w w' : World A} {pid : Nat} {p : Process} {id : Nat}

/-- Some descriptor of the table is one of the socket. -/
def Table.HasSocket (t : Table) (id : Nat) : Prop := ∃ d : Nat, t.sockets[d]? = some id

/-- Descriptor `d` of the running process `q` refers to the socket. -/
def Refers (w : World A) (id q d : Nat) : Prop :=
  ∃ p, w.process q = some p ∧ p.running = true ∧ p.table.sockets[d]? = some id

/-- Some descriptor refers to the socket. -/
def Referred (w : World A) (id : Nat) : Prop := ∃ q d, Refers w id q d

/-- The internal socket is in the network stack. -/
def Present (w : World A) (id : Nat) : Prop :=
  ∃ stack state, w.stack = some stack ∧ stack.states[id]? = some state ∧ A.Mem stack.sockets state.handle

/-- A socket is in the network stack exactly as long as a descriptor refers to it, and nothing else is. -/
def Lifetime (w : World A) : Prop :=
  (∀ id, Present w id ↔ Referred w id) ∧
  ∀ stack h, w.stack = some stack → A.Mem stack.sockets h → ∃ (id : Nat) (state : SocketState A), stack.states[id]? = some state ∧ state.handle = h

/-- The condition on a call, in the state before it. -/
def Careful (w : World A) (e : Nat × Call) : Prop :=
  ∀ p, w.process e.1 = some p →
    match e.2 with
    -- the descriptor is the only one of its socket
    | .close fd => ∀ id, (p.table.close fd).1 = .socket id → ∀ q d, Refers w id q d → q = e.1 ∧ d = fd
    -- a socket at the target has another descriptor
    | .dup2 fd newfd => fd ≠ newfd → (p.table.object fd).isSome = true → ∀ id, p.table.sockets[newfd]? = some id →
        ∃ q d, Refers w id q d ∧ ¬ (q = e.1 ∧ d = newfd)
    -- every socket of the process has a descriptor in another one
    | .exit => ∀ d id : Nat, p.table.sockets[d]? = some id → ∃ q d', Refers w id q d' ∧ q ≠ e.1
    -- a socket that is made gets a number that is not in use and, for UDP, a port other than 0
    | .socket domain type => ∀ stack, w.stack = some stack → domain = 2 ∨ domain = 10 →
        type % 256 = 1 ∨ type % 256 = 2 → stack.states[w.nextSocket]? = none ∧ (type % 256 = 2 → w.nextPort ≠ 0)
    | _ => True

/-! ## References -/

/-- The table of a running process is replaced. -/
theorem refers_update (hr : p.running = true) {t : Table}
    (hproc : w'.process = Function.update w.process pid (some { p with table := t })) {q d : Nat} :
    Refers w' id q d ↔ (q = pid ∧ t.sockets[d]? = some id) ∨ (q ≠ pid ∧ Refers w id q d) := by
  unfold Refers
  rw [hproc]
  by_cases hq : q = pid
  · subst hq
    simp [hr]
  · simp [hq]

theorem referred_update (hr : p.running = true) {t : Table}
    (hproc : w'.process = Function.update w.process pid (some { p with table := t })) :
    Referred w' id ↔ t.HasSocket id ∨ ∃ q d, q ≠ pid ∧ Refers w id q d := by
  simp only [Referred, refers_update hr hproc]
  constructor
  · rintro ⟨q, d, ⟨-, h⟩ | h⟩
    · exact .inl ⟨d, h⟩
    · exact .inr ⟨q, d, h⟩
  · rintro (⟨d, h⟩ | ⟨q, d, h⟩)
    · exact ⟨pid, d, .inl ⟨rfl, h⟩⟩
    · exact ⟨q, d, .inr h⟩

/-- The same for the table that is there. -/
theorem referred_iff (hp : w.process pid = some p) (hr : p.running = true) :
    Referred w id ↔ p.table.HasSocket id ∨ ∃ q d, q ≠ pid ∧ Refers w id q d :=
  referred_update hr (update_self_of hp)

/-- A table whose descriptors refer to the same sockets. -/
theorem referred_same (hp : w.process pid = some p) (hr : p.running = true) {t : Table}
    (hproc : w'.process = Function.update w.process pid (some { p with table := t }))
    (hsame : t.HasSocket id ↔ p.table.HasSocket id) : Referred w' id ↔ Referred w id := by
  rw [referred_update hr hproc, referred_iff hp hr, hsame]

/-! ## Tables -/

theorem sockets_of_object {t : Table} {fd : Nat} {ipv6 : Bool} (h : t.object fd = some (.socket id ipv6)) :
    t.sockets[fd]? = some id := by
  unfold Table.object at h
  split at h
  · cases h
  split at h
  · cases h
  obtain ⟨id', hid, he⟩ := Option.map_eq_some_iff.1 h
  cases he
  exact hid

/-- A copy of an object at another descriptor: what the table refers to is what it referred to elsewhere. -/
theorem sockets_install {t t₀ : Table} {fd newfd : Nat} {object : Object} (hne : fd ≠ newfd)
    (hobj : t₀.object fd = some object) (hsame : ∀ d : Nat, d ≠ newfd → t.sockets[d]? = t₀.sockets[d]?)
    (hnew : t.sockets[newfd]? = none) :
    (t.install newfd object).HasSocket id ↔ ∃ d : Nat, d ≠ newfd ∧ t₀.sockets[d]? = some id := by
  have hold : t.HasSocket id ↔ ∃ d : Nat, d ≠ newfd ∧ t₀.sockets[d]? = some id := by
    constructor
    · rintro ⟨d, hd⟩
      have hdn : d ≠ newfd := by
        rintro rfl
        rw [hnew] at hd
        cases hd
      exact ⟨d, hdn, hsame d hdn ▸ hd⟩
    · rintro ⟨d, hdn, hd⟩
      exact ⟨d, (hsame d hdn).trans hd⟩
  cases object with
  | file file => exact hold
  | stdio target => exact hold
  | socket id' ipv6 =>
    rw [← hold]
    have hfd : t.sockets[fd]? = some id' := (hsame fd hne).trans (sockets_of_object hobj)
    simp only [Table.HasSocket, Table.install, getElem?_insertKey]
    constructor
    · rintro ⟨d, hd⟩
      split at hd
      · exact ⟨fd, hfd.trans hd⟩
      · exact ⟨d, hd⟩
    · rintro ⟨d, hd⟩
      refine ⟨d, ?_⟩
      rw [if_neg]
      · exact hd
      · rintro rfl
        rw [hnew] at hd
        cases hd

/-- A copy at a free descriptor. -/
theorem sockets_install_free {t : Table} {fd newfd : Nat} {object : Object} (hobj : t.object fd = some object)
    (hfree : t.used newfd = false) (hlow : 3 ≤ newfd) :
    (t.install newfd object).HasSocket id ↔ t.HasSocket id := by
  obtain ⟨hfile, hstdio, hsocket⟩ := Table.used_eq_false_iff.1 hfree
  have hne : fd ≠ newfd := by
    rintro rfl
    simp [Table.object, hfile, hstdio, hsocket, show ¬ fd ≤ 2 by omega] at hobj
  rw [sockets_install hne hobj (fun _ _ => rfl) hsocket]
  constructor
  · rintro ⟨d, -, hd⟩
    exact ⟨d, hd⟩
  · rintro ⟨d, hd⟩
    refine ⟨d, ?_, hd⟩
    rintro rfl
    rw [hsocket] at hd
    cases hd

theorem sockets_dup (t : Table) (fd : Nat) :
    (t.dup fd).2.HasSocket id ↔ t.HasSocket id := by
  unfold Table.dup
  split
  · rfl
  · next object hobj => exact sockets_install_free hobj t.nextFd_spec.2.1 t.nextFd_spec.1

theorem sockets_fcntl (t : Table) (fd command argument : Nat) :
    (t.fcntl fd command argument).2.HasSocket id ↔ t.HasSocket id := by
  unfold Table.fcntl
  split
  · rfl
  next object hobj =>
  split
  · split
    · rfl
    · next hfd =>
      have hleast := Table.least_of_below hfd
      exact sockets_install_free hobj hleast.2.1 (Nat.le_trans (Nat.le_max_right _ _) hleast.1)
  split <;> rfl

/-- `dup2` drops what was at its target, if it does anything. -/
theorem sockets_dup2 (t : Table) (fd newfd : Nat) :
    (t.dup2 fd newfd).2 = t ∨ (fd ≠ newfd ∧ (t.object fd).isSome = true ∧
      ∀ id, (t.dup2 fd newfd).2.HasSocket id ↔ ∃ d : Nat, d ≠ newfd ∧ t.sockets[d]? = some id) := by
  unfold Table.dup2
  split
  · exact .inl rfl
  next object hobj =>
  split
  · exact .inl rfl
  next hne =>
  refine .inr ⟨hne, by rw [hobj]; rfl, fun id => sockets_install hne hobj (fun d hd => ?_) ?_⟩
  · simp [Table.remove, hd]
  · simp [Table.remove]

/-- `sys_close` drops the socket it hands to `net::close`, and no other. -/
theorem sockets_close (t : Table) (fd : Nat) :
    (∃ id, t.close fd = (.socket id, (t.close fd).2) ∧ t.sockets[fd]? = some id ∧
      (t.close fd).2.sockets = t.sockets.erase fd) ∨
    ((∀ id, (t.close fd).1 ≠ .socket id) ∧ (t.close fd).2.sockets = t.sockets) := by
  unfold Table.close
  split
  · exact .inr ⟨nofun, rfl⟩
  dsimp only
  split
  · next id hid => exact .inl ⟨id, rfl, hid, rfl⟩
  split
  · exact .inr ⟨nofun, rfl⟩
  split <;> exact .inr ⟨nofun, rfl⟩

/-! ## The network stack -/

/-- The sockets after `net::close`. -/
theorem netClose_socketState (w : World A) (id i : Nat) :
    (w.netClose id).2.socketState i = if i = id then none else w.socketState i := by
  cases hs : w.stack with
  | none => simp [World.netClose, World.socketState, hs]
  | some stack =>
    cases hstate : stack.states[id]? with
    | none =>
      have he : (w.netClose id).2 = w := by simp only [World.netClose, hs, hstate]
      rw [he]
      split
      · next hi => simp [World.socketState, hs, hi, hstate]
      · rfl
    | some state => simp [World.netClose, World.socketState, hs, hstate]

/-- The stack agrees with the sockets that are referred to: it has a state for each of them, the states have sockets of
their own in the set, and the set has no others. -/
structure Agrees (stack : NetworkStack A) (referred : Nat → Prop) : Prop where
  state : ∀ id, referred id ↔ ∃ state, stack.states[id]? = some state
  member : ∀ (id : Nat) (state : SocketState A), stack.states[id]? = some state → A.Mem stack.sockets state.handle
  owner : ∀ h, A.Mem stack.sockets h → ∃ (id : Nat) (state : SocketState A), stack.states[id]? = some state ∧ state.handle = h
  distinct : ∀ (id id' : Nat) (state state' : SocketState A), stack.states[id]? = some state →
    stack.states[id']? = some state' → state.handle = state'.handle → id = id'

theorem Agrees.congr {stack : NetworkStack A} {P Q : Nat → Prop} (h : Agrees stack P) (hPQ : ∀ id, Q id ↔ P id) :
    Agrees stack Q :=
  ⟨fun id => (hPQ id).trans (h.state id), h.member, h.owner, h.distinct⟩

/-- `net::socket`: a state with a new handle. -/
theorem Agrees.insert {stack : NetworkStack A} {P : Nat → Prop} (h : Agrees stack P) {id : Nat} (kind : SocketKind)
    (port : Nat) (hnew : stack.states[id]? = none) :
    Agrees ⟨(A.add stack.sockets).2, stack.states.insert id ⟨kind, (A.add stack.sockets).1, port⟩⟩
      fun i => i = id ∨ P i := by
  have hold : ∀ (i : Nat) (state : SocketState A), stack.states[i]? = some state →
      state.handle ≠ (A.add stack.sockets).1 := fun i state hi he =>
    A.add_new stack.sockets (he ▸ h.member i state hi)
  refine ⟨fun i => ?_, fun i state hi => ?_, fun handle hm => ?_, fun i i' state state' hi hi' he => ?_⟩
  · simp only [getElem?_insertKey]
    by_cases hid : i = id
    · simp [hid]
    · simp [hid, h.state i]
  · rw [A.mem_add]
    simp only [getElem?_insertKey] at hi
    split at hi
    · cases hi
      exact .inl rfl
    · exact .inr (h.member i state hi)
  · simp only [getElem?_insertKey]
    rcases (A.mem_add _ _).1 hm with rfl | hm
    · exact ⟨id, _, if_pos rfl, rfl⟩
    · obtain ⟨i, state, hi, rfl⟩ := h.owner handle hm
      refine ⟨i, state, ?_, rfl⟩
      rw [if_neg]
      · exact hi
      · rintro rfl
        rw [hnew] at hi
        cases hi
  · simp only [getElem?_insertKey] at hi hi'
    split at hi <;> split at hi'
    · next h₁ h₂ => exact h₁.trans h₂.symm
    · cases hi
      exact absurd he.symm (hold i' state' hi')
    · cases hi'
      exact absurd he (hold i state hi)
    · exact h.distinct i i' state state' hi hi' he

/-- `net::close`. -/
theorem Agrees.erase {stack : NetworkStack A} {P : Nat → Prop} (h : Agrees stack P) {id : Nat} {state : SocketState A}
    (hid : stack.states[id]? = some state) :
    Agrees ⟨A.remove stack.sockets state.handle, stack.states.erase id⟩ fun i => i ≠ id ∧ P i := by
  have hmem := h.member id state hid
  refine ⟨fun i => ?_, fun i state' hi => ?_, fun handle hm => ?_, fun i i' s s' hi hi' he => ?_⟩
  · simp only [getElem?_eraseKey]
    by_cases hne : i = id
    · simp [hne]
    · simp [hne, h.state i]
  · simp only [getElem?_eraseKey] at hi
    split at hi
    · cases hi
    · next hne =>
      exact (A.mem_remove _ _ _ hmem).2 ⟨fun he => hne (h.distinct i id state' state hi hid he), h.member i state' hi⟩
  · obtain ⟨hne, hm⟩ := (A.mem_remove _ _ _ hmem).1 hm
    obtain ⟨i, state', hi, rfl⟩ := h.owner handle hm
    refine ⟨i, state', ?_, rfl⟩
    simp only [getElem?_eraseKey]
    rw [if_neg]
    · exact hi
    · rintro rfl
      exact hne (congrArg SocketState.handle (Option.some.inj (hi.symm.trans hid)))
  · simp only [getElem?_eraseKey] at hi hi'
    split at hi
    · cases hi
    split at hi'
    · cases hi'
    · exact h.distinct i i' s s' hi hi' he

/-! ## One call -/

/-- What every state of a careful run has. -/
structure World.Kept (w : World A) : Prop where
  integral : w.Integral
  agrees : ∀ stack, w.stack = some stack → Agrees stack (Referred w)
  none : w.stack = none → ∀ id, ¬ Referred w id

theorem World.Kept.lifetime (h : w.Kept) : Lifetime w := by
  refine ⟨fun id => ⟨?_, fun hr => ?_⟩, fun stack handle hs hm => (h.agrees stack hs).owner handle hm⟩
  · rintro ⟨stack, state, hs, hid, -⟩
    exact ((h.agrees stack hs).state id).2 ⟨state, hid⟩
  · cases hs : w.stack with
    | none => exact absurd hr (h.none hs id)
    | some stack =>
      obtain ⟨state, hid⟩ := ((h.agrees stack hs).state id).1 hr
      exact ⟨stack, state, hs, hid, (h.agrees stack hs).member id state hid⟩

/-- The stack is as before, and so are the sockets that are referred to. -/
theorem World.Kept.of_same (h : w.Kept) (hi : w'.Integral) (hs : w'.stack = w.stack)
    (hr : ∀ id, Referred w' id ↔ Referred w id) : w'.Kept := by
  refine ⟨hi, fun stack hstack => (h.agrees stack (hs ▸ hstack)).congr hr, fun hnone id hid => ?_⟩
  exact h.none (hs ▸ hnone) id ((hr id).1 hid)

theorem boot_kept (network : Bool) : (World.boot A network).Kept := by
  have hnone : ∀ id, ¬ Referred (World.boot A network) id := by
    rintro id ⟨q, d, p, hp, -, hd⟩
    simp only [World.boot] at hp
    split at hp
    · cases hp
      simp [Table.empty] at hd
    · cases hp
  refine ⟨boot_integral network, fun stack hs => ?_, fun _ => hnone⟩
  cases network with
  | false => cases hs
  | true =>
    cases hs
    refine ⟨fun id => ⟨fun hid => absurd hid (hnone id), ?_⟩, ?_, fun h hm => absurd hm (A.not_mem_empty h), ?_⟩
    · rintro ⟨state, hid⟩
      simp at hid
    · intro id state hid
      simp at hid
    · intro id id' state state' hid
      simp at hid

/-- A call that edits the table of its caller and leaves the stack alone. -/
theorem kept_edit (h : w.Kept) (hp : w.process pid = some p) (hr : p.running = true) {t : Table} (hi : w'.Integral)
    (hproc : w'.process = Function.update w.process pid (some { p with table := t })) (hs : w'.stack = w.stack)
    (hsame : ∀ id, t.HasSocket id ↔ p.table.HasSocket id) : w'.Kept :=
  h.of_same hi hs fun id => referred_same hp hr hproc (hsame id)

theorem hasSocket_congr {t t' : Table} (h : t'.sockets = t.sockets) (id : Nat) : t'.HasSocket id ↔ t.HasSocket id := by
  unfold Table.HasSocket
  rw [h]

/-- A descriptor other than the one of the target refers to the socket. -/
theorem elsewhere_iff (hp : w.process pid = some p) (hr : p.running = true) {fd : Nat} :
    (∃ q d, Refers w id q d ∧ ¬ (q = pid ∧ d = fd)) ↔
      (∃ d : Nat, d ≠ fd ∧ p.table.sockets[d]? = some id) ∨ ∃ q d, q ≠ pid ∧ Refers w id q d := by
  constructor
  · rintro ⟨q, d, hrefers, hne⟩
    by_cases hq : q = pid
    · subst hq
      obtain ⟨p', hp', -, hd⟩ := hrefers
      obtain rfl : p = p' := Option.some.inj (hp.symm.trans hp')
      exact .inl ⟨d, fun he => hne ⟨rfl, he⟩, hd⟩
    · exact .inr ⟨q, d, hq, hrefers⟩
  · rintro (⟨d, hd, hid⟩ | ⟨q, d, hq, hrefers⟩)
    · exact ⟨pid, d, ⟨p, hp, hr, hid⟩, fun he => hd he.2⟩
    · exact ⟨q, d, hrefers, fun he => hq he.1⟩

theorem dup2_kept (h : w.Kept) (hp : w.process pid = some p) (hr : p.running = true) {fd newfd : Nat}
    (hc : Careful w (pid, .dup2 fd newfd)) : (w.call pid p (.dup2 fd newfd)).2.Kept := by
  have hi := call_integral h.integral hp hr (.dup2 fd newfd)
  have hproc : (w.call pid p (.dup2 fd newfd)).2.process =
      Function.update w.process pid (some { p with table := (p.table.dup2 fd newfd).2 }) := rfl
  rcases sockets_dup2 p.table fd newfd with he | ⟨hne, hobj, hsockets⟩
  · exact kept_edit h hp hr hi hproc rfl fun id => by rw [he]
  · refine h.of_same hi rfl fun id => ?_
    rw [referred_update hr hproc, show (p.table.dup2 fd newfd).2.HasSocket id ↔ _ from hsockets id, ← elsewhere_iff hp hr]
    constructor
    · rintro ⟨q, d, hrefers, -⟩
      exact ⟨q, d, hrefers⟩
    · rintro ⟨q, d, hrefers⟩
      by_cases htarget : q = pid ∧ d = newfd
      · -- the socket at the target has another descriptor
        obtain ⟨rfl, rfl⟩ := htarget
        obtain ⟨p', hp', -, hd⟩ := hrefers
        obtain rfl : p = p' := Option.some.inj (hp.symm.trans hp')
        exact hc p hp hne hobj id hd
      · exact ⟨q, d, hrefers, htarget⟩

theorem close_kept (h : w.Kept) (hp : w.process pid = some p) (hr : p.running = true) {fd : Nat}
    (hc : Careful w (pid, .close fd)) : (w.call pid p (.close fd)).2.Kept := by
  have hi := call_integral h.integral hp hr (.close fd)
  rcases sockets_close p.table fd with ⟨id, hclose, hid, hsockets⟩ | ⟨hnot, hsockets⟩
  · -- the descriptor was the last one of the socket
    have honly := hc p hp id (by rw [hclose])
    have hstep : (w.call pid p (.close fd)).2 = (w.netClose id).2.setTable pid p (p.table.close fd).2 := by
      simp only [World.call, World.sysClose]
      rw [hclose]
    obtain ⟨hproc, -⟩ := w.netClose_process id
    have hreferred : ∀ i, Referred (w.call pid p (.close fd)).2 i ↔ i ≠ id ∧ Referred w i := by
      intro i
      rw [hstep, referred_update (w := w) (t := (p.table.close fd).2) hr
        (by simp only [World.setTable, World.set]; rw [hproc])]
      have hhas : (p.table.close fd).2.HasSocket i ↔ ∃ d : Nat, d ≠ fd ∧ p.table.sockets[d]? = some i := by
        simp only [Table.HasSocket, hsockets, getElem?_eraseKey]
        constructor
        · rintro ⟨d, hd⟩
          split at hd
          · cases hd
          · next hne => exact ⟨d, hne, hd⟩
        · rintro ⟨d, hne, hd⟩
          exact ⟨d, by rw [if_neg hne]; exact hd⟩
      rw [hhas, ← elsewhere_iff hp hr]
      constructor
      · rintro ⟨q, d, hrefers, hne⟩
        refine ⟨?_, q, d, hrefers⟩
        rintro rfl
        exact hne (honly q d hrefers)
      · rintro ⟨hne, q, d, hrefers⟩
        refine ⟨q, d, hrefers, ?_⟩
        rintro ⟨rfl, rfl⟩
        obtain ⟨p', hp', -, hd⟩ := hrefers
        obtain rfl : p = p' := Option.some.inj (hp.symm.trans hp')
        exact hne (Option.some.inj (hd.symm.trans hid))
    have hrefid : Referred w id := ⟨pid, fd, p, hp, hr, hid⟩
    cases hs : w.stack with
    | none => exact absurd hrefid (h.none hs id)
    | some stack =>
      obtain ⟨state, hstate⟩ := ((h.agrees stack hs).state id).1 hrefid
      have hstack : (w.call pid p (.close fd)).2.stack =
          some ⟨A.remove stack.sockets state.handle, stack.states.erase id⟩ := by
        rw [hstep]
        simp [World.setTable, World.set, World.netClose, hs, hstate]
      refine ⟨hi, fun stack' hs' => ?_, fun hnone => ?_⟩
      · rw [hstack] at hs'
        cases hs'
        exact ((h.agrees stack hs).erase hstate).congr hreferred
      · rw [hstack] at hnone
        cases hnone
  · have hstep : ∃ r, w.call pid p (.close fd) = (r, w.setTable pid p (p.table.close fd).2) := by
      simp only [World.call, World.sysClose]
      split
      · next hc => exact ⟨_, by rw [hc]⟩
      · next hc => exact ⟨_, by rw [hc]⟩
      · next hc => exact absurd (by rw [hc]) (hnot _)
    obtain ⟨r, hstep⟩ := hstep
    rw [hstep] at hi ⊢
    exact kept_edit h hp hr hi rfl rfl (hasSocket_congr hsockets)

/-- What `net::socket` does when the counters are good. -/
theorem netSocket_cases (kind : Nat) (hport : ∀ stack, w.stack = some stack → kind = 2 → w.nextPort ≠ 0) :
    (∃ e, w.netSocket kind = (.error e, w)) ∨
    (∃ stack k port w₁, w.stack = some stack ∧ (kind = 1 ∨ kind = 2) ∧ w.netSocket kind = (.ok w.nextSocket, w₁) ∧ w₁.process = w.process ∧
      w₁.stack = some ⟨(A.add stack.sockets).2,
        stack.states.insert w.nextSocket ⟨k, (A.add stack.sockets).1, port⟩⟩) := by
  unfold World.netSocket
  split
  · exact .inl ⟨_, rfl⟩
  next stack hs =>
  split
  · exact .inl ⟨_, rfl⟩
  next k hk =>
  have hkind : kind = 1 ∧ k = .tcp ∨ kind = 2 ∧ k = .udp := by
    split at hk
    · next h₁ => exact .inl ⟨h₁, (Option.some.inj hk).symm⟩
    split at hk
    · next h₂ => exact .inr ⟨h₂, (Option.some.inj hk).symm⟩
    · cases hk
  dsimp only
  split
  · next hbind =>
    obtain ⟨-, rfl⟩ | ⟨h₂, -⟩ := hkind
    · exact absurd hbind.1 nofun
    · rw [(A.bind_iff w.nextPort).2 (hport stack hs h₂)] at hbind
      exact absurd hbind.2 nofun
  · exact .inr ⟨stack, k, _, _, hs, hkind.imp And.left And.left, rfl, rfl, rfl⟩

theorem socket_kept (h : w.Kept) (hp : w.process pid = some p) (hr : p.running = true) {domain type : Nat}
    (hc : Careful w (pid, .socket domain type)) : (w.call pid p (.socket domain type)).2.Kept := by
  have hi := call_integral h.integral hp hr (.socket domain type)
  simp only [World.call, World.sysSocket] at hi ⊢
  split
  · exact h
  next hdomain =>
  rw [if_neg hdomain] at hi
  have hdom : domain = 2 ∨ domain = 10 := by
    rw [not_and_or, not_not, not_not] at hdomain
    exact hdomain
  rcases netSocket_cases (type % 256) (fun stack hs h₂ => (hc p hp stack hs hdom (.inr h₂)).2 h₂) with
    ⟨e, he⟩ | ⟨stack, k, port, w₁, hs, hkind, he, hproc, hstack⟩
  · rw [he]
    exact h
  · rw [he] at hi ⊢
    have hnew := (hc p hp stack hs hdom hkind).1
    have hfree := (Table.used_eq_false_iff.1 p.table.nextFd_spec.2.1).2.2
    have hreferred : ∀ i, Referred (w₁.setTable pid p
        (p.table.install p.table.nextFd (.socket w.nextSocket (domain == 10)))) i ↔ i = w.nextSocket ∨ Referred w i := by
      intro i
      rw [referred_update (w := w) (t := p.table.install p.table.nextFd (.socket w.nextSocket (domain == 10))) hr
        (by simp only [World.setTable, World.set]; rw [hproc]), referred_iff hp hr, ← or_assoc]
      refine or_congr_left ?_
      simp only [Table.HasSocket, Table.install, getElem?_insertKey]
      constructor
      · rintro ⟨d, hd⟩
        split at hd
        · exact .inl (Option.some.inj hd).symm
        · exact .inr ⟨d, hd⟩
      · rintro (rfl | ⟨d, hd⟩)
        · exact ⟨_, if_pos rfl⟩
        · refine ⟨d, ?_⟩
          rw [if_neg]
          · exact hd
          · rintro rfl
            rw [hfree] at hd
            cases hd
    refine ⟨hi, fun stack' hs' => ?_, fun hnone => ?_⟩
    · obtain rfl := Option.some.inj (hstack.symm.trans hs')
      exact ((h.agrees stack hs).insert k port hnew).congr hreferred
    · exact absurd (hstack.symm.trans hnone) (by simp)

theorem clone_kept (h : w.Kept) (hp : w.process pid = some p) (hr : p.running = true) :
    (w.call pid p .clone).2.Kept := by
  refine h.of_same (call_integral h.integral hp hr .clone) rfl fun id => ?_
  have hchild : (w.call pid p .clone).2.process = Function.update w.process (w.nextPid + 1) (some ⟨p.table, true⟩) := rfl
  unfold Referred Refers
  rw [hchild]
  constructor
  · rintro ⟨q, d, p', hp', hr', hd⟩
    by_cases hq : q = w.nextPid + 1
    · subst hq
      rw [Function.update_self] at hp'
      cases hp'
      exact ⟨pid, d, p, hp, hr, hd⟩
    · rw [Function.update_of_ne hq] at hp'
      exact ⟨q, d, p', hp', hr', hd⟩
  · rintro ⟨q, d, p', hp', hr', hd⟩
    refine ⟨q, d, p', ?_, hr', hd⟩
    rw [Function.update_of_ne (h.integral.lt_of_process hp')]
    exact hp'

theorem exit_kept (h : w.Kept) (hp : w.process pid = some p) (hr : p.running = true) (hc : Careful w (pid, .exit)) :
    (w.call pid p .exit).2.Kept := by
  refine h.of_same (call_integral h.integral hp hr .exit) rfl fun id => ?_
  have hproc : (w.call pid p .exit).2.process =
      Function.update w.process pid (some ⟨{ p.table with files := ∅, sockets := ∅ }, false⟩) := rfl
  have hrefers : ∀ q d, Refers (w.call pid p .exit).2 id q d ↔ q ≠ pid ∧ Refers w id q d := by
    intro q d
    unfold Refers
    rw [hproc]
    by_cases hq : q = pid
    · subst hq
      simp
    · simp [hq]
  simp only [Referred, hrefers]
  constructor
  · rintro ⟨q, d, -, hd⟩
    exact ⟨q, d, hd⟩
  · rintro ⟨q, d, hd⟩
    by_cases hq : q = pid
    · subst hq
      obtain ⟨p', hp', -, hid⟩ := hd
      obtain rfl : p = p' := Option.some.inj (hp.symm.trans hp')
      obtain ⟨q', d', hother, hne⟩ := hc p hp d id hid
      exact ⟨q', d', hne, hother⟩
    · exact ⟨q, d, hq, hd⟩

/-- **One careful call.** -/
theorem call_kept (h : w.Kept) (hp : w.process pid = some p) (hr : p.running = true) {c : Call}
    (hc : Careful w (pid, c)) : (w.call pid p c).2.Kept := by
  have hi := call_integral h.integral hp hr c
  cases c with
  | openat opened =>
    cases opened with
    | error e => exact h
    | ok => exact kept_edit h hp hr hi rfl rfl (hasSocket_congr rfl)
  | socket domain type => exact socket_kept h hp hr hc
  | dup fd => exact kept_edit h hp hr hi rfl rfl fun id => sockets_dup p.table fd
  | dup2 fd newfd => exact dup2_kept h hp hr hc
  | fcntl fd command argument => exact kept_edit h hp hr hi rfl rfl fun id => sockets_fcntl p.table fd command argument
  | close fd => exact close_kept h hp hr hc
  | clone => exact clone_kept h hp hr
  | exit => exact exit_kept h hp hr hc

/-- **A socket lives exactly as long as a descriptor refers to it**, in every state of every run of any number of
processes whose calls are careful. -/
theorem socket_lifetime (A : SocketApi) (network : Bool) {events : List (Nat × Call)}
    (hok : Meets World.step Careful (World.boot A network) events) :
    Visits World.step Lifetime (World.boot A network) events := by
  have hkept : Visits World.step World.Kept (World.boot A network) events := by
    refine Visits.of_step (fun w e w' hw hc h => ?_) (boot_kept network) hok
    obtain ⟨p, hp, hr, rfl⟩ := World.step_cases h
    exact call_kept hw hp hr hc
  exact hkept.imp fun w hw => hw.lifetime

end Sockets

/-! ## Runs -/

/-- Handles are numbers, and a new one is above the others. -/
def numberedSockets : SocketApi where
  Handle := Nat
  Sockets := List Nat
  empty := []
  Mem := fun s h => h ∈ s
  add := fun s => (s.foldr max 0 + 1, (s.foldr max 0 + 1) :: s)
  remove := fun s h => s.filter (· ≠ h)
  bind := fun port => port ≠ 0
  not_mem_empty := fun _ => List.not_mem_nil
  add_new := by
    intro s hmem
    have hle : ∀ (l : List Nat) (a : Nat), a ∈ l → a ≤ l.foldr max 0 := by
      intro l
      induction l with
      | nil => nofun
      | cons b l ih =>
        intro a ha
        rcases List.mem_cons.1 ha with rfl | ha
        · exact Nat.le_max_left ..
        · exact Nat.le_trans (ih a ha) (Nat.le_max_right ..)
    exact absurd (hle s _ hmem) (Nat.not_succ_le_self _)
  mem_add := fun _ _ => List.mem_cons
  mem_remove := by
    intro s h h' _
    simp [and_comm]
  bind_iff := by simp

/-- A socket is made and closed. -/
def closeRun : List (Nat × Call) := [(1, .socket 2 1), (1, .close 3)]

theorem closeRun_careful : Meets World.step Careful (World.boot numberedSockets true) closeRun := by
  refine ⟨?_, fun w₁ h₁ => ?_⟩
  · intro p _ stack hs _ _
    cases hs
    exact ⟨by simp, by decide⟩
  cases h₁
  refine ⟨?_, fun _ _ => trivial⟩
  rintro p - id - q d ⟨p', hp', -, hd⟩
  by_cases hq : q = 1
  · subst hq
    cases hp'
    refine ⟨rfl, ?_⟩
    by_contra hne
    have hnone : (Table.empty.install 3 (.socket 1 false)).sockets[d]? = none := by
      simp only [Table.install, getElem?_insertKey, if_neg hne]
      simp [Table.empty]
    exact absurd (hnone.symm.trans hd) (by simp)
  · have hnone : (World.boot numberedSockets true).process q = none := if_neg hq
    have hsame := (Function.update_of_ne hq ..).symm.trans hp'
    rw [hnone] at hsame
    cases hsame

theorem socket_lifetime_closeRun :
    (runs World.step (World.boot numberedSockets true) closeRun).isSome = true ∧
      Visits World.step Lifetime (World.boot numberedSockets true) closeRun :=
  ⟨by decide +kernel, socket_lifetime numberedSockets true closeRun_careful⟩

/-- A socket is made and duplicated, and the first descriptor is closed. -/
def dupRun : List (Nat × Call) := [(1, .socket 2 1), (1, .dup 3), (1, .close 3)]

/-- The second descriptor is left with a socket that is gone. -/
theorem close_removes_shared_socket : ¬ Visits World.step Lifetime (World.boot numberedSockets true) dupRun := by
  intro h
  obtain ⟨-, h⟩ := h
  obtain ⟨-, h⟩ := h _ rfl
  obtain ⟨-, h⟩ := h _ rfl
  obtain ⟨hlife, -⟩ := h _ rfl
  obtain ⟨stack, state, hs, hid, -⟩ := (hlife 1).2 ⟨1, 4, _, rfl, rfl, by decide +kernel⟩
  cases hs
  have hsome := congrArg Option.isSome hid
  rw [Option.isSome_some] at hsome
  clear hid
  revert hsome
  decide +kernel

end Koros.Fd
