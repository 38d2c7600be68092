import Koros.Lib.Runs
import Mathlib.Algebra.BigOperators.Group.List.Basic
import Mathlib.Data.List.Nodup
import Mathlib.Algebra.Ring.Nat

/-!
# Interrupt-driven block requests

`VirtioBlock` of `kor-virtio/src/lib.rs` once interrupts are enabled: any number of calls of `read_blocks`, `write_blocks`
and `flush` at the same time, the device, and the interrupt handler, in any order. `op_lock` lets one call through at a
time; a read or a write then sleeps on the semaphore `completion`, which the handler posts, while a flush spins with the
lock `inner` held, so that its own interrupt is handled after it, as a wake-up that belongs to nobody. Of `op_lock` the
model has the call that holds it, and of `completion` the count.

The queue is the one of the crate `virtio-drivers`, of which `VirtQueue` states what this code relies on; what a request
does to the disk is a parameter. A device without the feature `FLUSH` gets no flushes: the crate answers them itself.

- `step_inv`: what every step keeps; **`requests_linearizable`** for every run;
- `step_progress`, `step_measure`: no completion is lost, and **`requests_return`**.
-/
set_option autoImplicit false
set_option linter.unusedSectionVars false

namespace Koros.Virtio

open Koros.Lib

/-! ## The queue of the driver crate -/

/-- A virtqueue: requests are added under a fresh token, served by the device in any order, and taken off the used ring
from its front. -/
structure VirtQueue (Token Q : Type) where
  /-- The feature `FLUSH` is negotiated. -/
  flushes : Bool
  /-- Tokens handed to the device. -/
  pending : Q → List Token
  /-- Tokens in the used ring. -/
  used : Q → List Token
  /-- `read_blocks_nb`, `write_blocks_nb` and the first half of `flush`; `none` is an error such as a full queue. -/
  add : Q → Option (Token × Q)
  /-- The device moves a token to the used ring. -/
  serve : Q → Token → Q
  peekUsed : Q → Option Token
  /-- `complete_read_blocks`, `complete_write_blocks` and the second half of `flush`. -/
  popUsed : Q → Q
  new : Q
  pending_new : pending new = []
  used_new : used new = []
  pending_add : ∀ {q t q'}, add q = some (t, q') → pending q' = pending q ++ [t]
  used_add : ∀ {q t q'}, add q = some (t, q') → used q' = used q
  pending_serve : ∀ {q t}, t ∈ pending q → (pending q).Perm (t :: pending (serve q t))
  used_serve : ∀ {q t}, t ∈ pending q → used (serve q t) = used q ++ [t]
  peekUsed_eq : ∀ q, peekUsed q = (used q).head?
  pending_pop : ∀ q, pending (popUsed q) = pending q
  used_pop : ∀ q, used (popUsed q) = (used q).tail

/-! ## The calls -/

/-- `io` is a read or a write, whose code is the same. -/
inductive Op (Req : Type) where
  | io (req : Req)
  | flush
deriving DecidableEq, Repr

def Op.isFlush {Req : Type} : Op Req → Bool
  | .io _ => false
  | .flush => true

/-- What a call returns. -/
inductive Reply (Answer : Type) where
  /-- The `IoError` of a request that the driver refused. -/
  | refused
  /-- The `Ok` of a flush that the device does not know. -/
  | skipped
  /-- What the device answered. -/
  | answered (answer : Answer)
deriving DecidableEq, Repr

/-- From the response buffer. -/
def Reply.of {Answer : Type} : Option Answer → Reply Answer
  | none => .refused
  | some a => .answered a

/-- The position of a call in `read_irq`, `write_irq` or `flush`. -/
inductive Pc (Token Req Answer : Type) where
  /-- Not called yet. -/
  | idle
  /-- `self.op_lock.lock()`. -/
  | locking (op : Op Req)
  /-- Adding the request to the queue. -/
  | submitting (op : Op Req)
  /-- `self.completion.wait()`. -/
  | waiting (token : Token)
  /-- Woken, to look at the used ring. -/
  | checking (token : Token)
  /-- A flush that spins on the used ring with `inner` held. -/
  | polling (token : Token)
  /-- The guard of `op_lock` is dropped. -/
  | unlocking (reply : Reply Answer)
  | returned (reply : Reply Answer)
deriving DecidableEq, Repr

namespace Pc

variable {Token Req Answer : Type}

/-- The call holds `op_lock`. -/
def holds : Pc Token Req Answer → Bool
  | .idle => false
  | .locking _ => false
  | .returned _ => false
  | _ => true

/-- The steps that are left, the ones that the request brings about not counted. -/
def weight : Pc Token Req Answer → Nat
  | .idle => 0
  | .locking _ => 10
  | .submitting _ => 9
  | .waiting _ => 3
  | .checking _ => 4
  | .polling _ => 2
  | .unlocking _ => 1
  | .returned _ => 0

end Pc

/-- A request that the device has served. -/
structure Entry (Call Req Answer : Type) where
  call : Call
  op : Op Req
  answer : Answer
deriving DecidableEq, Repr

/-- The driver, the device and the interrupt line. -/
structure World (Call Token Req Answer Disk Q : Type) where
  queue : Q
  /-- The spin lock `inner` is held over a step, which only a flush does. -/
  inner : Bool
  opLock : Option Call
  completion : Nat
  /-- The device's interrupt status. -/
  irq : Bool
  /-- Handlers between `ack_interrupt` and `post`. -/
  acked : Nat
  pc : Call → Pc Token Req Answer
  /-- The calls made so far. -/
  calls : List Call
  asked : Call → Option (Op Req)
  /-- How many requests had been served when the call was made, and when it returned. -/
  since : Call → Nat
  till : Call → Nat
  /-- The descriptor of a token: whose request it is. -/
  desc : Token → Option (Call × Op Req)
  /-- The response buffer of a token. -/
  response : Token → Option Answer
  disk : Disk
  /-- The requests in the order in which the device served them. -/
  log : List (Entry Call Req Answer)

/-- What can happen next. -/
inductive Event (Call Token Req : Type) where
  | call (c : Call) (op : Op Req)
  | lock (c : Call)
  | submit (c : Call)
  | wake (c : Call)
  | check (c : Call)
  | poll (c : Call)
  | unlock (c : Call)
  /-- The device serves a request. -/
  | serve (t : Token)
  /-- `handle_interrupt`, up to the acknowledgement. -/
  | ack
  /-- `handle_interrupt` is entered although this device raised no interrupt. -/
  | spurious
  /-- `self.completion.post()`. -/
  | post
deriving DecidableEq, Repr

/-- Neither a new call nor an interrupt from elsewhere. -/
def Event.internal {Call Token Req : Type} : Event Call Token Req → Bool
  | .call .. => false
  | .spurious => false
  | _ => true

section Log

variable {Call Req Answer Disk : Type}

/-- Serving the requests of a log one after the other leads from one disk to another and gives their answers. -/
def Legal (exec : Op Req → Disk → Answer × Disk) (d : Disk) : List (Entry Call Req Answer) → Disk → Prop
  | [], d' => d' = d
  | e :: es, d' => e.answer = (exec e.op d).1 ∧ Legal exec (exec e.op d).2 es d'

theorem Legal.concat {exec : Op Req → Disk → Answer × Disk} {c : Call} {op : Op Req} :
    ∀ {es : List (Entry Call Req Answer)} {d d' : Disk}, Legal exec d es d' →
      Legal exec d (es ++ [⟨c, op, (exec op d').1⟩]) (exec op d').2
  | [], _, _, h => by
    cases h
    exact ⟨rfl, rfl⟩
  | _ :: _, _, _, h => ⟨h.1, h.2.concat⟩

end Log

/-! ## The invariant -/

section Invariant

variable {Call Token Req Answer Disk Q : Type} (V : VirtQueue Token Q) (exec : Op Req → Disk → Answer × Disk)

namespace World

variable (w : World Call Token Req Answer Disk Q)

/-- No request is in flight. -/
def Quiet : Prop := V.pending w.queue = [] ∧ V.used w.queue = [] ∧ w.inner = false

/-- The device has not served the call. -/
def Unserved (c : Call) : Prop := ∀ e ∈ w.log, e.call ≠ c

/-- The device has served the call with this answer, after the call was made. -/
def Served (c : Call) (op : Op Req) (a : Answer) : Prop :=
  ∃ p, w.log[p]? = some ⟨c, op, a⟩ ∧ w.since c ≤ p

/-- A wake-up is on its way. -/
def Coming : Prop := w.irq = true ∨ 0 < w.acked ∨ 0 < w.completion

/-- The one request in flight is the one of call `c`; `coming` is asked once it has been served. -/
def Flight (c : Call) (t : Token) (coming : Prop) : Prop :=
  ∃ op, w.asked c = some op ∧ w.desc t = some (c, op) ∧
    ((V.pending w.queue = [t] ∧ V.used w.queue = [] ∧ w.Unserved c) ∨
      (V.pending w.queue = [] ∧ V.used w.queue = [t] ∧ coming ∧ ∃ a, w.response t = some a ∧ w.Served c op a))

/-- What a call's reply says: only an answer is of a request that the device has seen. -/
def Answered (c : Call) : Reply Answer → Prop
  | .refused => w.Unserved c
  | .skipped => w.asked c = some .flush ∧ V.flushes = false ∧ w.Unserved c
  | .answered a => ∃ op, w.asked c = some op ∧ w.Served c op a

/-- What holds of a call, by its position. -/
def CallOk (c : Call) : Prop :=
  match w.pc c with
  | .idle => w.Unserved c
  | .locking op => w.asked c = some op ∧ w.Unserved c
  | .submitting op => w.opLock = some c ∧ w.Quiet V ∧ w.asked c = some op ∧ w.Unserved c
  | .waiting t => w.opLock = some c ∧ w.inner = false ∧ w.Flight V c t w.Coming
  | .checking t => w.opLock = some c ∧ w.inner = false ∧ w.Flight V c t True
  | .polling t => w.opLock = some c ∧ w.inner = true ∧ w.Flight V c t True
  | .unlocking a => w.opLock = some c ∧ w.Quiet V ∧ w.Answered V c a
  | .returned a => w.Answered V c a ∧
      ∀ p e, w.log[p]? = some e → e.call = c → p < w.till c

/-- The invariant, for a driver that started on the disk `d`. -/
structure Inv (d : Disk) : Prop where
  legal : Legal exec d w.log w.disk
  once : (w.log.map Entry.call).Nodup
  calls_nodup : w.calls.Nodup
  mem_calls : ∀ c, c ∈ w.calls ↔ w.pc c ≠ .idle
  since_le : ∀ c, w.since c ≤ w.log.length
  free : w.opLock = none → w.Quiet V
  held : ∀ c, w.opLock = some c → (w.pc c).holds = true
  ok : ∀ c, w.CallOk V c

variable {V exec} {w w' : World Call Token Req Answer Disk Q} {d : Disk} {c : Call}

/-- A call that does not hold `op_lock` is not affected by what others do; the log may grow by their requests. -/
theorem CallOk.bystander (h : w.CallOk V c) (hlock : w.opLock ≠ some c) (hpc : w'.pc c = w.pc c)
    (hasked : w'.asked c = w.asked c) (hsince : w'.since c = w.since c) (htill : w'.till c = w.till c)
    (hlog : w'.log = w.log ∨ ∃ e : Entry Call Req Answer, e.call ≠ c ∧ w'.log = w.log ++ [e]) : w'.CallOk V c := by
  have hun : w.Unserved c → w'.Unserved c := by
    intro hu e he
    rcases hlog with hl | ⟨e', hne, hl⟩
    · exact hu e (hl ▸ he)
    · rw [hl, List.mem_append, List.mem_singleton] at he
      rcases he with he | rfl
      · exact hu e he
      · exact hne
  have hans : ∀ a, w.Answered V c a → w'.Answered V c a := by
    intro a ha
    cases a with
    | refused => exact hun ha
    | skipped => exact ⟨hasked.trans ha.1, ha.2.1, hun ha.2.2⟩
    | answered a =>
      obtain ⟨op, hop, p, hp, hle⟩ := ha
      refine ⟨op, hasked.trans hop, p, ?_, hsince ▸ hle⟩
      rcases hlog with hl | ⟨e', -, hl⟩
      · rw [hl, hp]
      · rw [hl, List.getElem?_append_left (List.getElem?_eq_some_iff.1 hp).1, hp]
  unfold CallOk at h ⊢
  rw [hpc]
  cases hw : w.pc c with
  | idle =>
    rw [hw] at h
    exact hun h
  | locking op =>
    rw [hw] at h
    exact ⟨hasked.trans h.1, hun h.2⟩
  | returned a =>
    rw [hw] at h
    refine ⟨hans a h.1, fun p e hp he => ?_⟩
    rw [htill]
    rcases hlog with hl | ⟨e', hne, hl⟩
    · exact h.2 p e (hl ▸ hp) he
    · rw [hl] at hp
      rcases Nat.lt_or_ge p w.log.length with hlt | hge
      · rw [List.getElem?_append_left hlt] at hp
        exact h.2 p e hp he
      · rw [List.getElem?_append_right hge, List.getElem?_singleton] at hp
        split at hp
        · cases hp
          exact absurd he hne
        · cases hp
  | submitting op => rw [hw] at h; exact absurd h.1 hlock
  | waiting t => rw [hw] at h; exact absurd h.1 hlock
  | checking t => rw [hw] at h; exact absurd h.1 hlock
  | polling t => rw [hw] at h; exact absurd h.1 hlock
  | unlocking a => rw [hw] at h; exact absurd h.1 hlock

theorem Flight.imp {t : Token} {P P' : Prop} (h : w.Flight V c t P) (himp : P → P') : w.Flight V c t P' := by
  obtain ⟨op, hop, hdesc, hleft | ⟨hp, hu, hc, hr⟩⟩ := h
  · exact ⟨op, hop, hdesc, .inl hleft⟩
  · exact ⟨op, hop, hdesc, .inr ⟨hp, hu, himp hc, hr⟩⟩

/-- Nothing that concerns the call has changed, but for a wake-up that may have come nearer. -/
theorem CallOk.frame (h : w.CallOk V c) (hpc : w'.pc c = w.pc c) (hasked : w'.asked c = w.asked c)
    (hsince : w'.since c = w.since c) (htill : w'.till c = w.till c) (hqueue : w'.queue = w.queue)
    (hinner : w'.inner = w.inner) (hlock : w'.opLock = w.opLock) (hdesc : w'.desc = w.desc)
    (hresp : w'.response = w.response) (hlog : w'.log = w.log) (hcoming : w.Coming → w'.Coming) : w'.CallOk V c := by
  have hun : w'.Unserved c ↔ w.Unserved c := by simp only [Unserved, hlog]
  have hserved : ∀ op a, w'.Served c op a ↔ w.Served c op a := fun op a => by simp only [Served, hlog, hsince]
  have hquiet : w'.Quiet V ↔ w.Quiet V := by simp only [Quiet, hqueue, hinner]
  have hans : ∀ a, w'.Answered V c a ↔ w.Answered V c a
    | .refused => hun
    | .skipped => by simp only [Answered, hasked, hun]
    | .answered a => by simp only [Answered, hasked, hserved]
  have hflight : ∀ t P, w'.Flight V c t P ↔ w.Flight V c t P := fun t P => by
    simp only [Flight, hasked, hdesc, hqueue, hun, hresp, hserved]
  unfold CallOk at h ⊢
  rw [hpc]
  split at h
  · exact hun.2 h
  · exact ⟨hasked.trans h.1, hun.2 h.2⟩
  · exact ⟨hlock.trans h.1, hquiet.2 h.2.1, hasked.trans h.2.2.1, hun.2 h.2.2.2⟩
  · exact ⟨hlock.trans h.1, hinner.trans h.2.1, ((hflight _ _).2 h.2.2).imp hcoming⟩
  · exact ⟨hlock.trans h.1, hinner.trans h.2.1, (hflight _ _).2 h.2.2⟩
  · exact ⟨hlock.trans h.1, hinner.trans h.2.1, (hflight _ _).2 h.2.2⟩
  · exact ⟨hlock.trans h.1, hquiet.2 h.2.1, (hans _).2 h.2.2⟩
  · refine ⟨(hans _).2 h.1, ?_⟩
    rw [hlog, htill]
    exact h.2

/-- The interrupt line, the handlers and the semaphore: a wake-up only comes nearer. -/
theorem signal_inv (h : w.Inv V exec d) {irq : Bool} {acked completion : Nat}
    (hcoming : w.Coming → irq = true ∨ 0 < acked ∨ 0 < completion) :
    ({ w with irq := irq, acked := acked, completion := completion } : World Call Token Req Answer Disk Q).Inv V exec d :=
  ⟨h.legal, h.once, h.calls_nodup, h.mem_calls, h.since_le, h.free, h.held,
    fun c => (h.ok c).frame rfl rfl rfl rfl rfl rfl rfl rfl rfl rfl hcoming⟩

end World

end Invariant

/-! ## The steps -/

section Steps

variable {Call Token Req Answer Disk Q : Type} [DecidableEq Call] [DecidableEq Token]
variable (V : VirtQueue Token Q) (exec : Op Req → Disk → Answer × Disk)

namespace World

def setPc (w : World Call Token Req Answer Disk Q) (c : Call) (p : Pc Token Req Answer) :
    World Call Token Req Answer Disk Q :=
  { w with pc := Function.update w.pc c p }

/-- A call of `read_blocks`, `write_blocks` or `flush`. -/
def call (w : World Call Token Req Answer Disk Q) (c : Call) (op : Op Req) : Option (World Call Token Req Answer Disk Q) :=
  match w.pc c with
  | .idle => some { w.setPc c (.locking op) with
      calls := c :: w.calls, asked := Function.update w.asked c (some op),
      since := Function.update w.since c w.log.length }
  | _ => none

def lock (w : World Call Token Req Answer Disk Q) (c : Call) : Option (World Call Token Req Answer Disk Q) :=
  match w.pc c, w.opLock with
  | .locking op, none => some { w.setPc c (.submitting op) with opLock := some c }
  | _, _ => none

/-- The request is added under `inner`; a flush keeps the lock, unless there is nothing to be done for it. -/
def submit (w : World Call Token Req Answer Disk Q) (c : Call) : Option (World Call Token Req Answer Disk Q) :=
  match w.pc c with
  | .submitting op =>
    if w.inner then none
    else if op.isFlush && !V.flushes then some (w.setPc c (.unlocking .skipped))
    else
      match V.add w.queue with
      | none => some (w.setPc c (.unlocking .refused))
      | some (t, q) =>
        let w := { w with
          queue := q, desc := Function.update w.desc t (some (c, op)), response := Function.update w.response t none }
        match op with
        | .io _ => some (w.setPc c (.waiting t))
        | .flush => some { w.setPc c (.polling t) with inner := true }
  | _ => none

def wake (w : World Call Token Req Answer Disk Q) (c : Call) : Option (World Call Token Req Answer Disk Q) :=
  match w.pc c with
  | .waiting t => if 0 < w.completion then some { w.setPc c (.checking t) with completion := w.completion - 1 } else none
  | _ => none

/-- `peek_used() == Some(token)`: complete the request, or wait again. -/
def check (w : World Call Token Req Answer Disk Q) (c : Call) : Option (World Call Token Req Answer Disk Q) :=
  match w.pc c with
  | .checking t =>
    if w.inner then none
    else if V.peekUsed w.queue = some t then
      some { w.setPc c (.unlocking (.of (w.response t))) with queue := V.popUsed w.queue }
    else some (w.setPc c (.waiting t))
  | _ => none

/-- A flush takes the front of the used ring as soon as there is one; another token than its own is an error. -/
def poll (w : World Call Token Req Answer Disk Q) (c : Call) : Option (World Call Token Req Answer Disk Q) :=
  match w.pc c with
  | .polling t =>
    match V.peekUsed w.queue with
    | none => none
    | some t' =>
      if t' = t then some { w.setPc c (.unlocking (.of (w.response t))) with queue := V.popUsed w.queue, inner := false }
      else some { w.setPc c (.unlocking .refused) with inner := false }
  | _ => none

def unlock (w : World Call Token Req Answer Disk Q) (c : Call) : Option (World Call Token Req Answer Disk Q) :=
  match w.pc c with
  | .unlocking a => some { w.setPc c (.returned a) with opLock := none, till := Function.update w.till c w.log.length }
  | _ => none

/-- The device carries out a request, fills in its response and raises its interrupt. -/
def serve (w : World Call Token Req Answer Disk Q) (t : Token) : Option (World Call Token Req Answer Disk Q) :=
  if t ∈ V.pending w.queue then
    match w.desc t with
    | some (c, op) => some { w with
        queue := V.serve w.queue t, disk := (exec op w.disk).2, irq := true,
        response := Function.update w.response t (some (exec op w.disk).1),
        log := w.log ++ [⟨c, op, (exec op w.disk).1⟩] }
    | none => none
  else none

/-- The acknowledgement needs `inner`. -/
def ack (w : World Call Token Req Answer Disk Q) : Option (World Call Token Req Answer Disk Q) :=
  if w.irq ∧ ¬w.inner then some { w with irq := false, acked := w.acked + 1 } else none

def spurious (w : World Call Token Req Answer Disk Q) : Option (World Call Token Req Answer Disk Q) :=
  if w.inner then none else some { w with irq := false, acked := w.acked + 1 }

def post (w : World Call Token Req Answer Disk Q) : Option (World Call Token Req Answer Disk Q) :=
  if 0 < w.acked then some { w with acked := w.acked - 1, completion := w.completion + 1 } else none

def step (w : World Call Token Req Answer Disk Q) : Event Call Token Req → Option (World Call Token Req Answer Disk Q)
  | .call c op => w.call c op
  | .lock c => w.lock c
  | .submit c => w.submit V c
  | .wake c => w.wake c
  | .check c => w.check V c
  | .poll c => w.poll V c
  | .unlock c => w.unlock c
  | .serve t => w.serve V exec t
  | .ack => w.ack
  | .spurious => w.spurious
  | .post => w.post

/-- An idle driver on a disk. -/
def init (d : Disk) : World Call Token Req Answer Disk Q where
  queue := V.new
  inner := false
  opLock := none
  completion := 0
  irq := false
  acked := 0
  pc _ := .idle
  calls := []
  asked _ := none
  since _ := 0
  till _ := 0
  desc _ := none
  response _ := none
  disk := d
  log := []

end World

/-! ## Every step keeps the invariant -/

namespace World

variable {V exec} {w w' : World Call Token Req Answer Disk Q} {d : Disk} {c : Call}

/-- A call that is made. -/
theorem call_inv {op : Op Req} (h : w.Inv V exec d) (hs : w.call c op = some w') : w'.Inv V exec d := by
  unfold call at hs
  split at hs
  case h_2 => cases hs
  case h_1 hpc =>
    cases hs
    refine ⟨h.legal, h.once, ?_, fun c' => ?_, fun c' => ?_, h.free, fun c' hc' => ?_, fun c' => ?_⟩
    · exact List.nodup_cons.2 ⟨fun hm => (h.mem_calls c).1 hm hpc, h.calls_nodup⟩
    · by_cases hc : c' = c
      · subst hc
        simp [setPc]
      · simp [setPc, hc, h.mem_calls]
    · by_cases hc : c' = c
      · subst hc
        simp [setPc]
      · simp [setPc, hc, h.since_le]
    · have hheld := h.held c' hc'
      by_cases hc : c' = c
      · subst hc
        rw [hpc] at hheld
        cases hheld
      · simp [setPc, hc, hheld]
    · by_cases hc : c' = c
      · subst hc
        have hok := h.ok c'
        simp only [CallOk, hpc] at hok
        simp only [CallOk, setPc, Function.update_self]
        exact ⟨trivial, hok⟩
      · exact (h.ok c').frame (by simp [setPc, hc]) (by simp [hc]) (by simp [hc]) rfl rfl rfl rfl rfl rfl rfl id

theorem ack_inv (h : w.Inv V exec d) (hs : w.ack = some w') : w'.Inv V exec d := by
  unfold ack at hs
  split at hs
  · cases hs
    exact signal_inv h fun _ => .inr (.inl (Nat.succ_pos _))
  · cases hs

theorem spurious_inv (h : w.Inv V exec d) (hs : w.spurious = some w') : w'.Inv V exec d := by
  unfold spurious at hs
  split at hs
  · cases hs
  · cases hs
    exact signal_inv h fun _ => .inr (.inl (Nat.succ_pos _))

theorem post_inv (h : w.Inv V exec d) (hs : w.post = some w') : w'.Inv V exec d := by
  unfold post at hs
  split at hs
  · cases hs
    exact signal_inv h fun _ => .inr (.inr (Nat.succ_pos _))
  · cases hs

/-- A step of the call that holds `op_lock`, or takes it: everybody else is a bystander. -/
theorem turn_inv (h : w.Inv V exec d) (hlock : ∀ c', c' ≠ c → w.opLock ≠ some c') (hidle : w.pc c ≠ .idle)
    (hpc : ∀ c', c' ≠ c → w'.pc c' = w.pc c') (hidle' : w'.pc c ≠ .idle) (hcalls : w'.calls = w.calls)
    (hasked : w'.asked = w.asked) (hsince : w'.since = w.since) (htill : ∀ c', c' ≠ c → w'.till c' = w.till c')
    (hdisk : w'.disk = w.disk) (hlog : w'.log = w.log) (hfree : w'.opLock = none → w'.Quiet V)
    (hheld : ∀ c', w'.opLock = some c' → c' = c ∧ (w'.pc c).holds = true) (hok : w'.CallOk V c) : w'.Inv V exec d := by
  refine ⟨?_, ?_, ?_, fun c' => ?_, fun c' => ?_, hfree, fun c' hc' => ?_, fun c' => ?_⟩
  · rw [hlog, hdisk]
    exact h.legal
  · rw [hlog]
    exact h.once
  · rw [hcalls]
    exact h.calls_nodup
  · rw [hcalls, h.mem_calls]
    by_cases hc : c' = c
    · subst hc
      exact ⟨fun _ => hidle', fun _ => hidle⟩
    · rw [hpc c' hc]
  · rw [hsince, hlog]
    exact h.since_le c'
  · obtain ⟨rfl, hholds⟩ := hheld c' hc'
    exact hholds
  · by_cases hc : c' = c
    · subst hc
      exact hok
    · exact (h.ok c').bystander (hlock c' hc) (hpc c' hc) (by rw [hasked]) (by rw [hsince]) (htill c' hc) (.inl hlog)

theorem lock_inv (h : w.Inv V exec d) (hs : w.lock c = some w') : w'.Inv V exec d := by
  unfold lock at hs
  split at hs
  case h_2 => cases hs
  case h_1 op hpc hfree =>
    cases hs
    have hok := h.ok c
    simp only [CallOk, hpc] at hok
    refine turn_inv (c := c) h (fun c' _ => by rw [hfree]; nofun) (by rw [hpc]; nofun) (fun c' hc => by simp [setPc, hc])
      (by simp [setPc]) rfl rfl rfl (fun _ _ => rfl) rfl rfl nofun (fun c' hc' => ?_) ?_
    · cases hc'
      exact ⟨rfl, by simp [setPc, Pc.holds]⟩
    · simp only [CallOk, setPc, Function.update_self]
      exact ⟨trivial, h.free hfree, hok.1, hok.2⟩

/-- A step of the call that holds `op_lock` and keeps it. -/
theorem hold_inv {p : Pc Token Req Answer} (h : w.Inv V exec d) (hl : w.opLock = some c) (hp : p.holds = true)
    (hpc : w'.pc = Function.update w.pc c p) (hlock : w'.opLock = w.opLock) (hcalls : w'.calls = w.calls)
    (hasked : w'.asked = w.asked) (hsince : w'.since = w.since) (htill : w'.till = w.till) (hdisk : w'.disk = w.disk)
    (hlog : w'.log = w.log) (hok : w'.CallOk V c) : w'.Inv V exec d := by
  have hself : w'.pc c = p := by rw [hpc, Function.update_self]
  have hidle : ∀ q : Pc Token Req Answer, q.holds = true → q ≠ .idle := by
    rintro q hq rfl
    cases hq
  refine turn_inv (c := c) h (fun c' hne heq => ?_) (hidle _ (h.held c hl)) (fun c' hc => ?_) (hself ▸ hidle p hp) hcalls
    hasked hsince (fun c' _ => by rw [htill]) hdisk hlog (fun hn => ?_) (fun c' hc' => ?_) hok
  · rw [hl] at heq
    exact hne (Option.some.inj heq).symm
  · rw [hpc, Function.update_of_ne hc]
  · rw [hlock, hl] at hn
    cases hn
  · rw [hlock, hl] at hc'
    exact ⟨(Option.some.inj hc').symm, hself ▸ hp⟩

theorem submit_inv (h : w.Inv V exec d) (hs : w.submit V c = some w') : w'.Inv V exec d := by
  unfold submit at hs
  split at hs
  case h_2 => cases hs
  case h_1 op hpc =>
    have hok := h.ok c
    simp only [CallOk, hpc] at hok
    obtain ⟨hl, ⟨hpend, hused, hinner⟩, hasked, hun⟩ := hok
    rw [if_neg (by simp [hinner])] at hs
    split at hs
    · rename_i hskip
      simp only [Bool.and_eq_true, Bool.not_eq_true'] at hskip
      cases hs
      refine hold_inv (p := .unlocking .skipped) h hl rfl rfl rfl rfl rfl rfl rfl rfl rfl ?_
      simp only [CallOk, setPc, Function.update_self]
      cases op with
      | io req => cases hskip.1
      | flush => exact ⟨hl, ⟨hpend, hused, hinner⟩, hasked, hskip.2, hun⟩
    split at hs
    · cases hs
      refine hold_inv (p := .unlocking .refused) h hl rfl rfl rfl rfl rfl rfl rfl rfl rfl ?_
      simp only [CallOk, setPc, Function.update_self]
      exact ⟨hl, ⟨hpend, hused, hinner⟩, hun⟩
    · rename_i t q hadd
      have hpend' : V.pending q = [t] := by rw [V.pending_add hadd, hpend]; rfl
      have hused' : V.used q = [] := (V.used_add hadd).trans hused
      cases op with
      | io req =>
        cases hs
        refine hold_inv (p := .waiting t) h hl rfl rfl rfl rfl rfl rfl rfl rfl rfl ?_
        simp only [CallOk, setPc, Function.update_self]
        exact ⟨hl, hinner, .io req, hasked, by simp, .inl ⟨hpend', hused', hun⟩⟩
      | flush =>
        cases hs
        refine hold_inv (p := .polling t) h hl rfl rfl rfl rfl rfl rfl rfl rfl rfl ?_
        simp only [CallOk, setPc, Function.update_self]
        exact ⟨hl, trivial, .flush, hasked, by simp, .inl ⟨hpend', hused', hun⟩⟩

theorem wake_inv (h : w.Inv V exec d) (hs : w.wake c = some w') : w'.Inv V exec d := by
  unfold wake at hs
  split at hs
  case h_2 => cases hs
  case h_1 t hpc =>
    have hok := h.ok c
    simp only [CallOk, hpc] at hok
    obtain ⟨hl, hinner, hflight⟩ := hok
    split at hs
    · cases hs
      refine hold_inv (p := .checking t) h hl rfl rfl rfl rfl rfl rfl rfl rfl rfl ?_
      simp only [CallOk, setPc, Function.update_self]
      exact ⟨hl, hinner, hflight.imp fun _ => trivial⟩
    · cases hs

/-- Taking the answer of a request off the used ring. -/
theorem popped {t : Token} (hflight : w.Flight V c t True) (hpeek : V.peekUsed w.queue = some t) :
    V.pending (V.popUsed w.queue) = [] ∧ V.used (V.popUsed w.queue) = [] ∧ w.Answered V c (.of (w.response t)) := by
  rw [V.peekUsed_eq] at hpeek
  rw [V.pending_pop, V.used_pop]
  obtain ⟨op, hop, hdesc, ⟨hp, hu, hun⟩ | ⟨hp, hu, -, a, ha, hserved⟩⟩ := hflight
  · rw [hu] at hpeek
    cases hpeek
  · rw [hp, hu, ha]
    exact ⟨rfl, rfl, op, hop, hserved⟩

theorem check_inv (h : w.Inv V exec d) (hs : w.check V c = some w') : w'.Inv V exec d := by
  unfold check at hs
  split at hs
  case h_2 => cases hs
  case h_1 t hpc =>
    have hok := h.ok c
    simp only [CallOk, hpc] at hok
    obtain ⟨hl, hinner, hflight⟩ := hok
    rw [if_neg (by simp [hinner])] at hs
    split at hs
    · rename_i hpeek
      obtain ⟨hp, hu, hans⟩ := popped hflight hpeek
      cases hs
      refine hold_inv (p := .unlocking (.of (w.response t))) h hl rfl rfl rfl rfl rfl rfl rfl rfl rfl ?_
      simp only [CallOk, setPc, Function.update_self]
      exact ⟨hl, ⟨hp, hu, hinner⟩, hans⟩
    · rename_i hpeek
      cases hs
      refine hold_inv (p := .waiting t) h hl rfl rfl rfl rfl rfl rfl rfl rfl rfl ?_
      simp only [CallOk, setPc, Function.update_self]
      refine ⟨hl, hinner, ?_⟩
      -- the request is still with the device: a served one would be in front of the ring
      obtain ⟨op, hop, hdesc, hleft | ⟨hp, hu, -, hr⟩⟩ := hflight
      · exact ⟨op, hop, hdesc, .inl hleft⟩
      · rw [V.peekUsed_eq, hu] at hpeek
        exact absurd rfl hpeek

theorem poll_inv (h : w.Inv V exec d) (hs : w.poll V c = some w') : w'.Inv V exec d := by
  unfold poll at hs
  split at hs
  case h_2 => cases hs
  case h_1 t hpc =>
    have hok := h.ok c
    simp only [CallOk, hpc] at hok
    obtain ⟨hl, hinner, hflight⟩ := hok
    split at hs
    · cases hs
    · rename_i t' hpeek
      -- the ring holds no other token
      have ht : t' = t := by
        rw [V.peekUsed_eq] at hpeek
        obtain ⟨-, -, -, ⟨-, hu, -⟩ | ⟨-, hu, -, -⟩⟩ := hflight
        · rw [hu] at hpeek
          cases hpeek
        · rw [hu] at hpeek
          exact (Option.some.inj hpeek).symm
      subst ht
      obtain ⟨hp, hu, hans⟩ := popped hflight hpeek
      rw [if_pos rfl] at hs
      cases hs
      refine hold_inv (p := .unlocking (.of (w.response t'))) h hl rfl rfl rfl rfl rfl rfl rfl rfl rfl ?_
      simp only [CallOk, setPc, Function.update_self]
      exact ⟨hl, ⟨hp, hu, rfl⟩, hans⟩

theorem unlock_inv (h : w.Inv V exec d) (hs : w.unlock c = some w') : w'.Inv V exec d := by
  unfold unlock at hs
  split at hs
  case h_2 => cases hs
  case h_1 a hpc =>
    have hok := h.ok c
    simp only [CallOk, hpc] at hok
    obtain ⟨hl, hquiet, hans⟩ := hok
    cases hs
    refine turn_inv (c := c) h (fun c' hne heq => ?_) (by rw [hpc]; nofun) (fun c' hc => by simp [setPc, hc])
      (by simp [setPc]) rfl rfl rfl (fun c' hc => by simp [hc]) rfl rfl (fun _ => hquiet) nofun ?_
    · rw [hl] at heq
      exact hne (Option.some.inj heq).symm
    · simp only [CallOk, setPc, Function.update_self]
      exact ⟨hans, fun p e hp _ => (List.getElem?_eq_some_iff.1 hp).1⟩

/-- The request that the device holds is the one of the call that holds `op_lock`. -/
theorem pending_flight {t : Token} (h : w.Inv V exec d) (hmem : t ∈ V.pending w.queue) :
    ∃ c op, w.opLock = some c ∧ (w.pc c = .waiting t ∨ w.pc c = .checking t ∨ w.pc c = .polling t) ∧
      w.asked c = some op ∧ w.desc t = some (c, op) ∧ V.pending w.queue = [t] ∧ V.used w.queue = [] ∧ w.Unserved c := by
  have hnil : V.pending w.queue ≠ [] := List.ne_nil_of_mem hmem
  cases hl : w.opLock with
  | none => exact absurd (h.free hl).1 hnil
  | some c =>
    have hheld := h.held c hl
    have hok := h.ok c
    have hflight : ∀ {t' P}, w.Flight V c t' P →
        (w.pc c = .waiting t' ∨ w.pc c = .checking t' ∨ w.pc c = .polling t') →
        ∃ c op, some c = w.opLock ∧ (w.pc c = .waiting t ∨ w.pc c = .checking t ∨ w.pc c = .polling t) ∧
          w.asked c = some op ∧ w.desc t = some (c, op) ∧ V.pending w.queue = [t] ∧ V.used w.queue = [] ∧
          w.Unserved c := by
      rintro t' P ⟨op, hop, hdesc, ⟨hp, hu, hun⟩ | ⟨hp, -⟩⟩ hpc
      · rw [hp, List.mem_singleton] at hmem
        subst hmem
        exact ⟨c, op, hl.symm, hpc, hop, hdesc, hp, hu, hun⟩
      · exact absurd hp hnil
    rw [← hl]
    simp only [eq_comm (a := w.opLock)]
    unfold CallOk at hok
    split at hok
    case h_1 hpc => rw [hpc] at hheld; cases hheld
    case h_2 hpc => rw [hpc] at hheld; cases hheld
    case h_3 hpc => exact absurd hok.2.1.1 hnil
    case h_4 hpc => exact hflight hok.2.2 (.inl hpc)
    case h_5 hpc => exact hflight hok.2.2 (.inr (.inl hpc))
    case h_6 hpc => exact hflight hok.2.2 (.inr (.inr hpc))
    case h_7 hpc => exact absurd hok.2.1.1 hnil
    case h_8 hpc => rw [hpc] at hheld; cases hheld

/-- The device serves the request that is in flight. -/
theorem serve_inv {t : Token} (h : w.Inv V exec d) (hs : w.serve V exec t = some w') : w'.Inv V exec d := by
  unfold serve at hs
  split at hs
  case isFalse => cases hs
  case isTrue hmem =>
    obtain ⟨c, op, hl, hpc, hasked, hdesc, hpend, hused, hun⟩ := pending_flight h hmem
    rw [hdesc] at hs
    cases hs
    have hpend' : V.pending (V.serve w.queue t) = [] := by
      have hperm := V.pending_serve hmem
      rw [hpend] at hperm
      exact List.perm_nil.1 ((List.perm_cons t).1 hperm).symm
    have hused' : V.used (V.serve w.queue t) = [t] := by rw [V.used_serve hmem, hused]; rfl
    refine ⟨h.legal.concat, ?_, h.calls_nodup, h.mem_calls, fun c' => ?_, fun hn => ?_, h.held, fun c' => ?_⟩
    · rw [List.map_append, List.map_singleton, List.nodup_append_comm, List.singleton_append, List.nodup_cons]
      refine ⟨fun hin => ?_, h.once⟩
      obtain ⟨e, he, hec⟩ := List.mem_map.1 hin
      exact hun e he hec
    · rw [List.length_append]
      exact Nat.le_add_right_of_le (h.since_le c')
    · rw [show w.opLock = none from hn] at hl
      cases hl
    · by_cases hc : c' = c
      · subst hc
        have hok := h.ok c'
        have hserved : World.Served { w with
            queue := V.serve w.queue t, disk := (exec op w.disk).2, irq := true,
            response := Function.update w.response t (some (exec op w.disk).1),
            log := w.log ++ [⟨c', op, (exec op w.disk).1⟩] } c' op (exec op w.disk).1 :=
          ⟨w.log.length, by simp, h.since_le c'⟩
        rcases hpc with hpc | hpc | hpc
        · simp only [CallOk, hpc] at hok ⊢
          exact ⟨hl, hok.2.1, op, hasked, hdesc, .inr ⟨hpend', hused', .inl rfl, _, by simp, hserved⟩⟩
        · simp only [CallOk, hpc] at hok ⊢
          exact ⟨hl, hok.2.1, op, hasked, hdesc, .inr ⟨hpend', hused', trivial, _, by simp, hserved⟩⟩
        · simp only [CallOk, hpc] at hok ⊢
          exact ⟨hl, hok.2.1, op, hasked, hdesc, .inr ⟨hpend', hused', trivial, _, by simp, hserved⟩⟩
      · refine (h.ok c').bystander (fun heq => ?_) rfl rfl rfl rfl (.inr ⟨_, Ne.symm hc, rfl⟩)
        rw [hl] at heq
        exact hc (Option.some.inj heq).symm

/-- **Every step keeps the invariant.** -/
theorem step_inv {e : Event Call Token Req} (h : w.Inv V exec d) (hs : w.step V exec e = some w') : w'.Inv V exec d := by
  cases e with
  | call c op => exact call_inv h hs
  | lock c => exact lock_inv h hs
  | submit c => exact submit_inv h hs
  | wake c => exact wake_inv h hs
  | check c => exact check_inv h hs
  | poll c => exact poll_inv h hs
  | unlock c => exact unlock_inv h hs
  | serve t => exact serve_inv h hs
  | ack => exact ack_inv h hs
  | spurious => exact spurious_inv h hs
  | post => exact post_inv h hs

theorem init_inv : (init V d : World Call Token Req Answer Disk Q).Inv V exec d := by
  refine ⟨rfl, List.nodup_nil, List.nodup_nil, fun c => ?_, fun c => Nat.le_refl 0,
    fun _ => ⟨V.pending_new, V.used_new, rfl⟩, nofun, ?_⟩
  · simp [init]
  · intro c e he
    cases he

/-! ## Linearizability -/

variable (V exec d w) in
/-- The calls that have returned are linearizable: the device's log explains the disk and the answers, each call is in it at
most once, between its beginning and its end, and there is never more than one request in flight. A call that was refused,
or a flush that was skipped, is not in it. -/
structure Linearized : Prop where
  legal : Legal exec d w.log w.disk
  once : (w.log.map Entry.call).Nodup
  answered : ∀ c a, w.pc c = .returned (.answered a) →
    ∃ op p, w.asked c = some op ∧ w.log[p]? = some ⟨c, op, a⟩ ∧ w.since c ≤ p ∧ p < w.till c
  refused : ∀ c, w.pc c = .returned .refused → ∀ e ∈ w.log, e.call ≠ c
  skipped : ∀ c, w.pc c = .returned .skipped →
    w.asked c = some .flush ∧ V.flushes = false ∧ ∀ e ∈ w.log, e.call ≠ c
  alone : (V.pending w.queue ++ V.used w.queue).length ≤ 1

theorem Flight.alone {t : Token} {P : Prop} (h : w.Flight V c t P) : (V.pending w.queue ++ V.used w.queue).length ≤ 1 := by
  obtain ⟨-, -, -, ⟨hp, hu, -⟩ | ⟨hp, hu, -⟩⟩ := h
  · simp [hp, hu]
  · simp [hp, hu]

theorem Inv.linearized (h : w.Inv V exec d) : w.Linearized V exec d := by
  refine ⟨h.legal, h.once, fun c a hpc => ?_, fun c hpc => ?_, fun c hpc => ?_, ?_⟩
  · have hok := h.ok c
    simp only [CallOk, hpc] at hok
    obtain ⟨⟨op, hop, p, hp, hle⟩, hlt⟩ := hok
    exact ⟨op, p, hop, hp, hle, hlt p _ hp rfl⟩
  · have hok := h.ok c
    simp only [CallOk, hpc] at hok
    exact hok.1
  · have hok := h.ok c
    simp only [CallOk, hpc] at hok
    exact hok.1
  · cases hl : w.opLock with
    | none => simp [(h.free hl).1, (h.free hl).2.1]
    | some c =>
      have hheld := h.held c hl
      have hok := h.ok c
      unfold CallOk at hok
      split at hok
      case h_1 hpc => rw [hpc] at hheld; cases hheld
      case h_2 hpc => rw [hpc] at hheld; cases hheld
      case h_3 => simp [hok.2.1.1, hok.2.1.2.1]
      case h_4 => exact hok.2.2.alone
      case h_5 => exact hok.2.2.alone
      case h_6 => exact hok.2.2.alone
      case h_7 => simp [hok.2.1.1, hok.2.1.2.1]
      case h_8 hpc => rw [hpc] at hheld; cases hheld

/-! ## Every call returns -/

variable (V w) in
/-- An upper bound of the steps that are left when nobody makes a new call. A request still brings about an interrupt, a
handler and a wake-up. -/
def measure : Nat :=
  (w.calls.map fun c => (w.pc c).weight).sum + 5 * (V.pending w.queue).length + 4 * w.irq.toNat + 3 * w.acked +
    2 * w.completion

/-- The weights of the calls when one of them moves. -/
theorem sum_weight_update {p : Pc Token Req Answer} : ∀ {l : List Call}, l.Nodup → c ∈ l →
    (l.map fun c' => (Function.update w.pc c p c').weight).sum + (w.pc c).weight =
      (l.map fun c' => (w.pc c').weight).sum + p.weight
  | [], _, hc => by cases hc
  | c' :: l, hnd, hc => by
    obtain ⟨hnot, hnd⟩ := List.nodup_cons.1 hnd
    by_cases heq : c' = c
    · subst heq
      have htail : (l.map fun x => (Function.update w.pc c' p x).weight) = l.map fun x => (w.pc x).weight :=
        List.map_congr_left fun x hx => by
          have hne : x ≠ c' := fun h => hnot (h ▸ hx)
          rw [Function.update_of_ne hne]
      rw [List.map_cons, List.map_cons, List.sum_cons, List.sum_cons, htail, Function.update_self]
      omega
    · have ih := sum_weight_update (p := p) hnd (List.mem_of_ne_of_mem (Ne.symm heq) hc)
      rw [List.map_cons, List.map_cons, List.sum_cons, List.sum_cons, Function.update_of_ne heq]
      omega

/-- A call that moves to a lighter position, with what its step adds elsewhere. -/
theorem measure_move {p : Pc Token Req Answer} (h : w.Inv V exec d) (hidle : w.pc c ≠ .idle)
    (hpc : w'.pc = Function.update w.pc c p) (hcalls : w'.calls = w.calls) (hirq : w'.irq = w.irq) (hacked : w'.acked = w.acked)
    (hlt : p.weight + 5 * (V.pending w'.queue).length + 2 * w'.completion <
      (w.pc c).weight + 5 * (V.pending w.queue).length + 2 * w.completion) : w'.measure V < w.measure V := by
  have hsum := sum_weight_update (w := w) (p := p) h.calls_nodup ((h.mem_calls c).2 hidle)
  unfold measure
  rw [hcalls, hirq, hacked, hpc]
  omega

/-- **Every step on the way to the returns uses up something.** -/
theorem step_measure {e : Event Call Token Req} (h : w.Inv V exec d) (he : e.internal = true)
    (hs : w.step V exec e = some w') : w'.measure V < w.measure V := by
  cases e with
  | call c op => cases he
  | spurious => cases he
  | lock c =>
    simp only [step, lock] at hs
    split at hs
    · rename_i op hpc _
      cases hs
      exact measure_move (p := .submitting op) h (by rw [hpc]; nofun) rfl rfl rfl rfl (by simp [hpc, Pc.weight, setPc])
    · cases hs
  | submit c =>
    simp only [step, submit] at hs
    split at hs
    · rename_i op hpc
      split at hs
      · cases hs
      split at hs
      · cases hs
        exact measure_move (p := .unlocking .skipped) h (by rw [hpc]; nofun) rfl rfl rfl rfl (by simp [hpc, Pc.weight, setPc])
      · split at hs
        · cases hs
          exact measure_move (p := .unlocking .refused) h (by rw [hpc]; nofun) rfl rfl rfl rfl (by simp [hpc, Pc.weight, setPc])
        · rename_i t q hadd
          have hpend := V.pending_add hadd
          cases op with
          | io req =>
            cases hs
            refine measure_move (p := .waiting t) h (by rw [hpc]; nofun) rfl rfl rfl rfl ?_
            simp only [setPc, hpend, hpc, Pc.weight, List.length_append, List.length_singleton]
            omega
          | flush =>
            cases hs
            refine measure_move (p := .polling t) h (by rw [hpc]; nofun) rfl rfl rfl rfl ?_
            simp only [setPc, hpend, hpc, Pc.weight, List.length_append, List.length_singleton]
            omega
    · cases hs
  | wake c =>
    simp only [step, wake] at hs
    split at hs
    · rename_i t hpc
      split at hs
      · cases hs
        refine measure_move (p := .checking t) h (by rw [hpc]; nofun) rfl rfl rfl rfl ?_
        simp only [setPc, hpc, Pc.weight]
        omega
      · cases hs
    · cases hs
  | check c =>
    simp only [step, check] at hs
    split at hs
    · rename_i t hpc
      split at hs
      · cases hs
      · split at hs
        · cases hs
          refine measure_move (p := .unlocking (.of (w.response t))) h (by rw [hpc]; nofun) rfl rfl rfl rfl ?_
          simp only [setPc, hpc, Pc.weight, V.pending_pop]
          omega
        · cases hs
          exact measure_move (p := .waiting t) h (by rw [hpc]; nofun) rfl rfl rfl rfl (by simp [hpc, Pc.weight, setPc])
    · cases hs
  | poll c =>
    simp only [step, poll] at hs
    split at hs
    · rename_i t hpc
      split at hs
      · cases hs
      · split at hs
        · cases hs
          refine measure_move (p := .unlocking (.of (w.response t))) h (by rw [hpc]; nofun) rfl rfl rfl rfl ?_
          simp only [setPc, hpc, Pc.weight, V.pending_pop]
          omega
        · cases hs
          exact measure_move (p := .unlocking .refused) h (by rw [hpc]; nofun) rfl rfl rfl rfl (by simp [hpc, Pc.weight, setPc])
    · cases hs
  | unlock c =>
    simp only [step, unlock] at hs
    split at hs
    · rename_i a hpc
      cases hs
      exact measure_move (p := .returned a) h (by rw [hpc]; nofun) rfl rfl rfl rfl (by simp [hpc, Pc.weight, setPc])
    · cases hs
  | serve t =>
    simp only [step, serve] at hs
    split at hs
    · rename_i hmem
      split at hs
      · cases hs
        have hlen := (V.pending_serve hmem).length_eq
        have hirq : w.irq.toNat ≤ 1 := Bool.toNat_le _
        rw [List.length_cons] at hlen
        simp only [measure, Bool.toNat_true, hlen]
        omega
      · cases hs
    · cases hs
  | ack =>
    simp only [step, ack] at hs
    split at hs
    · rename_i hcond
      cases hs
      simp only [measure, hcond.1, Bool.toNat_true, Bool.toNat_false]
      omega
    · cases hs
  | post =>
    simp only [step, post] at hs
    split at hs
    · cases hs
      simp only [measure]
      omega
    · cases hs

/-- A served or pending request of a call that waits for it leads on. -/
theorem Flight.progress {t : Token} {P : Prop} (h : w.Flight V c t P)
    (hserved : V.used w.queue = [t] → P → ∃ e : Event Call Token Req, e.internal = true ∧ (w.step V exec e).isSome) :
    ∃ e : Event Call Token Req, e.internal = true ∧ (w.step V exec e).isSome := by
  obtain ⟨op, -, hdesc, ⟨hp, -, -⟩ | ⟨-, hu, hP, -⟩⟩ := h
  · refine ⟨.serve t, rfl, ?_⟩
    simp [step, serve, hp, hdesc]
  · exact hserved hu hP

/-- **No completion is lost**: as long as a call has not returned, the driver, the device or the handler can go on. -/
theorem step_progress (h : w.Inv V exec d) (hc : c ∈ w.calls) (hpc : ∀ a, w.pc c ≠ .returned a) :
    ∃ e : Event Call Token Req, e.internal = true ∧ (w.step V exec e).isSome := by
  cases hl : w.opLock with
  | some c₀ =>
    have hheld := h.held c₀ hl
    have hok := h.ok c₀
    unfold CallOk at hok
    split at hok
    case h_1 hpc₀ => rw [hpc₀] at hheld; cases hheld
    case h_2 hpc₀ => rw [hpc₀] at hheld; cases hheld
    case h_3 op hpc₀ =>
      refine ⟨.submit c₀, rfl, ?_⟩
      simp only [step, submit, hpc₀, hok.2.1.2.2, Bool.false_eq_true, if_false]
      split
      · rfl
      split
      · rfl
      · cases op <;> rfl
    case h_4 t hpc₀ =>
      obtain ⟨-, hinner, hflight⟩ := hok
      refine hflight.progress fun _ hcoming => ?_
      rcases hcoming with hirq | hacked | hcompletion
      · exact ⟨.ack, rfl, by simp [step, ack, hirq, hinner]⟩
      · exact ⟨.post, rfl, by simp [step, post, hacked]⟩
      · exact ⟨.wake c₀, rfl, by simp [step, wake, hpc₀, hcompletion]⟩
    case h_5 t hpc₀ =>
      refine ⟨.check c₀, rfl, ?_⟩
      simp only [step, check, hpc₀, hok.2.1, Bool.false_eq_true, if_false]
      split <;> rfl
    case h_6 t hpc₀ =>
      refine hok.2.2.progress fun hu _ => ⟨.poll c₀, rfl, ?_⟩
      simp [step, poll, hpc₀, V.peekUsed_eq, hu]
    case h_7 a hpc₀ => exact ⟨.unlock c₀, rfl, by simp [step, unlock, hpc₀]⟩
    case h_8 hpc₀ => rw [hpc₀] at hheld; cases hheld
  | none =>
    -- nobody holds the lock, so the call is at its door
    have hok := h.ok c
    unfold CallOk at hok
    split at hok
    case h_1 hidle => exact absurd hidle ((h.mem_calls c).1 hc)
    case h_2 op hlocking => exact ⟨.lock c, rfl, by simp [step, lock, hlocking, hl]⟩
    case h_8 a hret => exact absurd hret (hpc a)
    all_goals
      rw [hl] at hok
      cases hok.1

variable (V exec w) in
/-- When no new call is made, the driver comes to rest within `measure` steps, whatever their order, and at rest every call
has returned. -/
def Settles : Prop :=
  ∀ es : List (Event Call Token Req), (∀ e ∈ es, e.internal = true) → ∀ w', runs (step V exec) w es = some w' →
    es.length ≤ w.measure V ∧
      ((∀ e : Event Call Token Req, e.internal = true → w'.step V exec e = none) →
        ∀ c ∈ w'.calls, ∃ a, w'.pc c = .returned a)

theorem Inv.settles (h : w.Inv V exec d) : w.Settles V exec := by
  intro es
  induction es generalizing w with
  | nil =>
    intro _ w' hrun
    cases hrun
    refine ⟨Nat.zero_le _, fun hrest c hc => ?_⟩
    by_contra hcon
    obtain ⟨e, he, hsome⟩ := step_progress h hc fun a ha => hcon ⟨a, ha⟩
    rw [hrest e he] at hsome
    cases hsome
  | cons e es ih =>
    intro hall w' hrun
    obtain ⟨w₁, hs, hrun⟩ := Option.bind_eq_some_iff.1 hrun
    have hlt := step_measure h (hall e (List.mem_cons_self ..)) hs
    obtain ⟨hlen, hrest⟩ := ih (step_inv h hs) (fun e' he' => hall e' (List.mem_cons_of_mem _ he')) w' hrun
    refine ⟨?_, hrest⟩
    rw [List.length_cons]
    omega

theorem run_inv (V : VirtQueue Token Q) (exec : Op Req → Disk → Answer × Disk) (d : Disk)
    (es : List (Event Call Token Req)) :
    Visits (step V exec) (fun w => w.Inv V exec d) (init V d : World Call Token Req Answer Disk Q) es := by
  have hall : Meets (step V exec) (fun _ _ => True) (init V d : World Call Token Req Answer Disk Q) es :=
    Meets.of_forall fun _ _ => trivial
  exact Visits.of_step (fun _ _ _ h _ hs => step_inv h hs) init_inv hall

/-- In every state of every run the calls are linearizable: the disk and all answers are those of the requests carried out
one at a time, in an order that respects which call returned before which began. -/
theorem requests_linearizable (V : VirtQueue Token Q) (exec : Op Req → Disk → Answer × Disk) (d : Disk)
    (es : List (Event Call Token Req)) :
    Visits (step V exec) (fun w => w.Linearized V exec d) (init V d : World Call Token Req Answer Disk Q) es :=
  (run_inv V exec d es).imp fun _ h => h.linearized

/-- From every state of every run, whatever stale wake-ups are around, all calls return within a bounded number of steps. -/
theorem requests_return (V : VirtQueue Token Q) (exec : Op Req → Disk → Answer × Disk) (d : Disk)
    (es : List (Event Call Token Req)) :
    Visits (step V exec) (fun w => w.Settles V exec) (init V d : World Call Token Req Answer Disk Q) es :=
  (run_inv V exec d es).imp fun _ h => h.settles

end World

end Steps

/-! ## A queue of two lists -/

/-- A queue with the tokens in two lists, of at most `n` requests. -/
def VirtQueue.lists (n : Nat) (flushes : Bool) : VirtQueue Nat (Nat × List Nat × List Nat) where
  flushes := flushes
  pending q := q.2.1
  used q := q.2.2
  add q := if q.2.1.length < n then some (q.1, q.1 + 1, q.2.1 ++ [q.1], q.2.2) else none
  serve q t := (q.1, q.2.1.erase t, q.2.2 ++ [t])
  peekUsed q := q.2.2.head?
  popUsed q := (q.1, q.2.1, q.2.2.tail)
  new := (0, [], [])
  pending_new := rfl
  used_new := rfl
  pending_add h := by
    split at h
    · cases h
      rfl
    · cases h
  used_add h := by
    split at h
    · cases h
      rfl
    · cases h
  pending_serve h := List.perm_cons_erase h
  used_serve _ := rfl
  peekUsed_eq _ := rfl
  pending_pop _ := rfl
  used_pop _ := rfl

/-- A disk of one number: `some v` writes it, `none` reads it. -/
def oneCell : Op (Option Nat) → Nat → Nat × Nat
  | .io (some v), _ => (0, v)
  | .io none, d => (d, d)
  | .flush, d => (0, d)

/-- A write, a flush and a read, of which the last is called while the first is served. The flush leaves its interrupt
behind, and the read is woken once for nothing. -/
def flushRun : List (Event Nat Nat (Option Nat)) :=
  [.call 0 (.io (some 7)), .lock 0, .submit 0, .call 2 (.io none), .serve 0, .ack, .post, .wake 0, .check 0, .unlock 0,
    .call 1 .flush, .lock 1, .submit 1, .serve 1, .poll 1, .unlock 1,
    .lock 2, .submit 2, .ack, .post, .wake 2, .check 2, .serve 2]

theorem requests_linearizable_flushRun :
    ∃ w, runs (World.step (VirtQueue.lists 4 true) oneCell) (World.init (VirtQueue.lists 4 true) 0) flushRun = some w ∧
      w.Linearized (VirtQueue.lists 4 true) oneCell 0 ∧ w.pc 1 = .returned (.answered 0) ∧ w.pc 2 = .waiting 2 ∧
      w.log.map Entry.call = [0, 1, 2] := by
  have hrun : (runs (World.step (VirtQueue.lists 4 true) oneCell) (World.init (VirtQueue.lists 4 true) 0) flushRun).map
      (fun w => (w.pc 1, w.pc 2, w.log.map Entry.call)) = some (.returned (.answered 0), .waiting 2, [0, 1, 2]) := by decide
  obtain ⟨w, hw, hv⟩ := Option.map_eq_some_iff.1 hrun
  simp only [Prod.mk.injEq] at hv
  exact ⟨w, hw, (World.requests_linearizable _ _ _ _).last hw, hv⟩

/-- From there every order of the handler's and the read's steps ends with the read's return. -/
theorem requests_return_flushRun :
    ∃ w, runs (World.step (VirtQueue.lists 4 true) oneCell) (World.init (VirtQueue.lists 4 true) 0) flushRun = some w ∧
      w.Settles (VirtQueue.lists 4 true) oneCell ∧ w.measure (VirtQueue.lists 4 true) = 7 := by
  have hrun : (runs (World.step (VirtQueue.lists 4 true) oneCell) (World.init (VirtQueue.lists 4 true) 0) flushRun).map
      (World.measure (VirtQueue.lists 4 true)) = some 7 := by decide
  obtain ⟨w, hw, hv⟩ := Option.map_eq_some_iff.1 hrun
  exact ⟨w, hw, (World.requests_return _ _ _ _).last hw, hv⟩

-- A device without the feature sees no flush.
example : (runs (World.step (VirtQueue.lists 4 false) oneCell) (World.init (VirtQueue.lists 4 false) 0)
    [.call 1 .flush, .lock 1, .submit 1, .unlock 1]).map (fun w => (w.pc 1, w.log.length)) =
      some (.returned .skipped, 0) := by decide

end Koros.Virtio
