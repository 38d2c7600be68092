import Koros.Mm.Calls

/-!
# Memory isolation of processes

Runs of process calls (`System.run`), where calls may fail in any way.

- `step_separated`, `run_separated`: every process is fenced from the others, as long as the calls are careful (`Event.Careful`);
- `processes_isolated`: what a user address of a live process translates to belongs neither to another process nor to a
  replaced image;
- `execve_shares_upper_half`: on aarch64 a new root shares the upper half of the user addresses with the active one.
-/
set_option autoImplicit false

namespace Koros.Mm

open Koros.Frame Koros.Mmu

/-! ## Careful runs -/

/-- What keeps a call inside the memory of its process. -/
def Process.Careful (arch : Arch) (p : Process) (m : Machine) : Call → Prop
  | .clone flags tid _ => UpperEmpty arch m ∧ p.SetsTid flags tid
  | .execve .. => UpperEmpty arch m
  | .exit => p.Clears arch m
  | _ => True

def Event.Careful (arch : Arch) (w : System) : Event → Prop
  | .init _ => UpperEmpty arch w.machine
  | .call i c => ∀ p, w.procs[i]? = some p → p.Careful arch (w.onCpu p).machine c

/-- Every event of the run is careful in the state that it meets. -/
def System.CarefulRun (arch : Arch) (w : System) : List Event → Prop
  | [] => True
  | event :: events => event.Careful arch w ∧ ∀ r w', w.step arch event = some (r, w') → w'.CarefulRun arch events

/-! ## The invariant -/

/-- Process `i` owns the frames `own[i]`; `lost` are frames that nobody gives back any more. -/
structure Separated (arch : Arch) (bound : Nat) (other : List Extent) (w : System) (own : List (List Nat)) (lost : List Nat) :
    Prop where
  length_eq : own.length = w.procs.length
  fences : ∀ {i : Nat} {p : Process} {frames : List Nat}, w.procs[i]? = some p → own[i]? = some frames →
    Fences arch w.machine.mem p.space frames
  pool : Pool bound w.machine.mem.frames (own.flatten ++ lost) other
  past : ∀ f ∈ w.past, f ∈ lost ∨ isUsed w.machine.mem.frames f = false

theorem age_past {past lost lost' : List Nat} {a a' : FrameAllocator} (h : ∀ f ∈ past, f ∈ lost ∨ isUsed a f = false)
    (hl : ∀ f ∈ lost, f ∈ lost') : ∀ f ∈ System.age past a a', f ∈ lost' ∨ isUsed a' f = false := by
  intro f hf
  obtain ⟨hmem, hage⟩ := List.mem_filter.1 hf
  rcases h f hmem with hin | hun
  · exact Or.inl (hl f hin)
  · rw [hun, Bool.false_or, Bool.not_eq_true'] at hage
    exact Or.inr hage

namespace Separated

variable {arch : Arch} {bound : Nat} {other : List Extent} {w : System} {own : List (List Nat)} {lost : List Nat}
  {m : Machine}

theorem exists_own (h : Separated arch bound other w own lost) {i : Nat} {p : Process} (hi : w.procs[i]? = some p) :
    ∃ frames, own[i]? = some frames := by
  have hlt := (List.getElem?_eq_some_iff.1 hi).1
  exact ⟨_, List.getElem?_eq_getElem (by rw [h.length_eq]; exact hlt)⟩

/-- Process `i` in front, the frames of the others behind. -/
theorem focus (h : Separated arch bound other w own lost) {i : Nat} {frames : List Nat} (hi : own[i]? = some frames) :
    Pool bound w.machine.mem.frames (frames ++ ((own.eraseIdx i).flatten ++ lost)) other := by
  refine h.pool.perm ?_
  rw [← List.append_assoc]
  exact (flatten_perm_eraseIdx hi).append_right lost

theorem onCpu (h : Separated arch bound other w own lost) (p : Process) : Separated arch bound other (w.onCpu p) own lost :=
  ⟨h.length_eq, h.fences, h.pool, h.past⟩

/-- No process changed. -/
theorem keep (h : Separated arch bound other w own lost) {left : List Nat}
    (hpool : Pool bound m.mem.frames (left ++ (own.flatten ++ lost)) other)
    (hs : Same (own.flatten ++ lost) w.machine.mem m.mem) : Separated arch bound other (w.keep m) own (left ++ lost) := by
  refine ⟨h.length_eq, fun hi hf => (h.fences hi hf).same (hs.mono fun f hf' => ?_), ?_, ?_⟩
  · exact List.mem_append_left _ (List.mem_flatten.2 ⟨_, List.mem_of_getElem? hf, hf'⟩)
  · exact hpool.perm (List.perm_append_comm_assoc ..)
  · exact age_past h.past fun f hf => List.mem_append_right _ hf

/-- Process `i` changed, in its own frames. -/
theorem change (h : Separated arch bound other w own lost) {i : Nat} {p p' : Process} (hi : w.procs[i]? = some p)
    {frames left : List Nat} (hf : Fences arch m.mem p'.space frames)
    (hpool : Pool bound m.mem.frames (left ++ (frames ++ ((own.eraseIdx i).flatten ++ lost))) other)
    (hs : Same ((own.eraseIdx i).flatten ++ lost) w.machine.mem m.mem) :
    Separated arch bound other (w.update i p' m) (own.set i frames) (left ++ lost) := by
  have hlt := (List.getElem?_eq_some_iff.1 hi).1
  have hlt' : i < own.length := by rw [h.length_eq]; exact hlt
  refine ⟨?_, ?_, ?_, ?_⟩
  · rw [List.length_set, h.length_eq]
    exact List.length_set.symm
  · intro j q fr hj hfr
    have hj' : (w.procs.set i p')[j]? = some q := hj
    by_cases hji : j = i
    · subst hji
      rw [List.getElem?_set_self hlt'] at hfr
      rw [List.getElem?_set_self hlt] at hj'
      cases hfr
      cases hj'
      exact hf
    · rw [List.getElem?_set_ne (Ne.symm hji)] at hfr hj'
      exact (h.fences hj' hfr).same (hs.mono fun f hin => List.mem_append_left _ (mem_flatten_eraseIdx hfr hji f hin))
  · have hset : (own.set i frames)[i]? = some frames := List.getElem?_set_self hlt'
    have hperm := flatten_perm_eraseIdx hset
    rw [List.eraseIdx_set_eq] at hperm
    refine hpool.perm ?_
    refine (List.perm_append_comm_assoc left frames _).trans ?_
    refine List.Perm.trans ?_ (hperm.symm.append_right (left ++ lost))
    rw [List.append_assoc]
    exact (List.perm_append_comm_assoc ..).append_left frames
  · exact age_past h.past fun f hf => List.mem_append_right _ hf

/-- A call that keeps its space fenced keeps all processes apart. -/
theorem stays (h : Separated arch bound other w own lost) {i : Nat} {p p' : Process} (hi : w.procs[i]? = some p)
    (hs : Stays arch bound other ((own.eraseIdx i).flatten ++ lost) p.space w.machine p'.space m) :
    ∃ own', Separated arch bound other (w.update i p' m) own' lost := by
  obtain ⟨frames, hf, hpool⟩ := hs.fenced.exists_frames
  have hpool' : Pool bound m.mem.frames ([] ++ (frames ++ ((own.eraseIdx i).flatten ++ lost))) other := hpool
  exact ⟨_, h.change hi hf hpool' hs.same⟩

theorem add (h : Separated arch bound other w own lost) {p : Process} {frames : List Nat} (hf : Fences arch m.mem p.space frames)
    (hpool : Pool bound m.mem.frames (frames ++ (own.flatten ++ lost)) other)
    (hs : Same (own.flatten ++ lost) w.machine.mem m.mem) : Separated arch bound other (w.add p m) (own ++ [frames]) lost := by
  refine ⟨?_, ?_, ?_, age_past h.past fun f hf => hf⟩
  · simp [System.add, h.length_eq]
  · intro j q fr hj hfr
    have hj' : (w.procs ++ [p])[j]? = some q := hj
    rcases Nat.lt_or_ge j w.procs.length with hlt | hge
    · rw [List.getElem?_append_left hlt] at hj'
      rw [List.getElem?_append_left (by rw [h.length_eq]; exact hlt)] at hfr
      refine (h.fences hj' hfr).same (hs.mono fun f hf' => ?_)
      exact List.mem_append_left _ (List.mem_flatten.2 ⟨fr, List.mem_of_getElem? hfr, hf'⟩)
    · have hj₁ : j = w.procs.length := by
        have := (List.getElem?_eq_some_iff.1 hj').1
        simp at this
        omega
      subst hj₁
      rw [List.getElem?_concat_length] at hj'
      rw [← h.length_eq, List.getElem?_concat_length] at hfr
      cases hj'
      cases hfr
      exact hf
  · rw [List.flatten_append, List.flatten_cons, List.flatten_nil, List.append_nil, List.append_assoc]
    exact hpool.perm (List.perm_append_comm_assoc ..)

end Separated

/-! ## Steps and runs -/

section Run

variable {arch : Arch} {bound : Nat} {other : List Extent} {w w' : System} {own : List (List Nat)} {lost : List Nat} {r : Int}

theorem execve_separated (hb : bound ≤ 2 ^ 36) (h : Separated arch bound other w own lost) {i : Nat} {p : Process}
    (hi : w.procs[i]? = some p) {image : List Load} {updated : Bool} (hup : UpperEmpty arch w.machine)
    (he : w.doCall arch i p (.execve image updated) = some (r, w')) :
    ∃ own' lost', Separated arch bound other w' own' lost' := by
  simp only [System.doCall, Option.bind_eq_bind, Option.bind_eq_some_iff] at he
  obtain ⟨⟨r₁, p₁, m₁⟩, he₁, he⟩ := he
  cases he
  obtain ⟨frames, hf⟩ := h.exists_own hi
  have hfences := h.fences hi hf
  rcases execve_fences hb hfences (h.focus hf) hup he₁ with
    ⟨hr, rfl, left, hpool, hs⟩ | ⟨rfl, new, left, hnew, hpool, hs, hfree⟩
  · rw [if_neg hr]
    have hfences₁ := hfences.same (hs.mono fun f hf => List.mem_append_left _ hf)
    exact ⟨_, _, h.change hi hfences₁ hpool (hs.mono fun f hf => List.mem_append_right _ hf)⟩
  · rw [if_pos rfl]
    have h₁ := h.change hi hnew hpool hs
    refine ⟨_, _, h₁.length_eq, h₁.fences, h₁.pool, fun f hm => ?_⟩
    rcases List.mem_append.1 hm with hm | hm
    · exact h₁.past f hm
    -- what the old image recorded is now of the past
    · obtain ⟨⟨va, page⟩, hx, rfl⟩ := List.mem_map.1 hm
      have hpage := hfences.page_mem (Std.TreeMap.mem_toList_iff_getElem?_eq_some.1 hx)
      exact (hfree page.phys hpage).imp_left fun hl => List.mem_append_left _ hl

theorem clone_separated (hb : bound ≤ 2 ^ 36) (h : Separated arch bound other w own lost) {i : Nat} {p : Process}
    {flags tid : Nat} {captured : Bool} (hup : UpperEmpty arch w.machine) (htid : p.SetsTid flags tid)
    (he : w.doCall arch i p (.clone flags tid captured) = some (r, w')) :
    ∃ own' lost', Separated arch bound other w' own' lost' := by
  simp only [System.doCall, Option.bind_eq_bind, Option.bind_eq_some_iff] at he
  obtain ⟨⟨q, m₁⟩, he₁, he⟩ := he
  obtain ⟨hs, ⟨child, rfl, hf⟩ | ⟨e, left, rfl, hpool⟩⟩ := clone_fences hb h.pool hup htid he₁
  · cases he
    obtain ⟨frames, hfences, hpool⟩ := hf.exists_frames
    exact ⟨_, _, h.add hfences hpool hs⟩
  · cases he
    exact ⟨_, _, h.keep hpool hs⟩

/-- A careful call of a process keeps all processes apart. -/
theorem doCall_separated (hb : bound ≤ 2 ^ 36) (h : Separated arch bound other w own lost) {i : Nat} {p : Process}
    (hi : w.procs[i]? = some p) {call : Call} (hc : p.Careful arch w.machine call)
    (he : w.doCall arch i p call = some (r, w')) : ∃ own' lost', Separated arch bound other w' own' lost' := by
  obtain ⟨frames, hf⟩ := h.exists_own hi
  have hfenced := (h.fences hi hf).fenced (h.focus hf)
  -- most calls change one address space in place
  have hstays : ∀ {p' : Process} {m : Machine},
      Stays arch bound other ((own.eraseIdx i).flatten ++ lost) p.space w.machine p'.space m →
      ∃ own' lost', Separated arch bound other (w.update i p' m) own' lost' := fun hs => by
    obtain ⟨own', h'⟩ := h.stays hi hs
    exact ⟨own', lost, h'⟩
  cases call with
  | mmap address length prot flags file =>
    simp only [System.doCall, Option.bind_eq_bind, Option.bind_eq_some_iff] at he
    obtain ⟨⟨r₁, p₁, m₁⟩, he₁, he⟩ := he
    cases he
    exact hstays (mmap_stays hb hfenced he₁)
  | munmap addr len =>
    simp only [System.doCall, Option.bind_eq_bind, Option.bind_eq_some_iff] at he
    obtain ⟨⟨r₁, p₁, m₁⟩, he₁, he⟩ := he
    cases he
    exact hstays (munmap_stays hfenced he₁)
  | mprotect address length prot =>
    simp only [System.doCall, Option.bind_eq_bind, Option.bind_eq_some_iff] at he
    obtain ⟨⟨r₁, p₁, m₁⟩, he₁, he⟩ := he
    cases he
    exact hstays (mprotect_stays hb hfenced he₁)
  | brk addr =>
    simp only [System.doCall, Option.bind_eq_bind, Option.bind_eq_some_iff] at he
    obtain ⟨⟨r₁, p₁, m₁⟩, he₁, he⟩ := he
    cases he
    exact hstays (sysBrk_stays hb hfenced he₁)
  | clone flags tid captured => exact clone_separated hb h hc.1 hc.2 he
  | execve image updated => exact execve_separated hb h hi hc he
  | exit =>
    simp only [System.doCall, Option.bind_eq_bind, Option.bind_eq_some_iff] at he
    obtain ⟨⟨p₁, m₁⟩, he₁, he⟩ := he
    cases he
    exact hstays (exit_stays hfenced hc he₁)
  | store vaddr words =>
    cases he
    exact hstays (store_call_stays hfenced vaddr words)

/-- The first process starts, or leaves some frames behind. -/
theorem init_separated (hb : bound ≤ 2 ^ 36) (h : Separated arch bound other w own lost) {image : List Load}
    (hup : UpperEmpty arch w.machine) (he : w.step arch (.init image) = some (r, w')) :
    ∃ own' lost', Separated arch bound other w' own' lost' := by
  simp only [System.step] at he
  split at he
  swap
  · cases he
  simp only [Option.bind_eq_bind, Option.bind_eq_some_iff] at he
  obtain ⟨⟨r₁, m₁⟩, he₁, he⟩ := he
  obtain ⟨hs₁, -, ⟨root, rfl, h₁⟩ | ⟨⟨e, rfl⟩, hpool₁⟩⟩ := empty_fenced hb h.pool hup he₁
  swap
  · cases he
    have hpool' : Pool bound m₁.mem.frames ([] ++ (own.flatten ++ lost)) other := hpool₁
    exact ⟨_, _, h.keep hpool' hs₁⟩
  simp only [Option.bind_eq_some_iff] at he
  obtain ⟨⟨r₂, space₂, m₂⟩, he₂, he⟩ := he
  have h₂ := loadProgram_stays hb image h₁ he₂
  have hs₂ := hs₁.trans h₂.same
  obtain ⟨new, hnew, hpool₂⟩ := h₂.fenced.exists_frames
  cases r₂ with
  | error e =>
    simp only [Option.bind_eq_some_iff] at he
    obtain ⟨m₃, hdrop, he⟩ := he
    cases he
    obtain ⟨left, hpool₃, -, hmem, -⟩ := drop_fences hnew hpool₂ hdrop
    exact ⟨_, _, h.keep hpool₃ (hs₂.trans fun f _ => congrFun hmem f)⟩
  | ok _ =>
    cases he
    exact ⟨_, _, h.add hnew hpool₂ hs₂⟩

theorem step_separated (hb : bound ≤ 2 ^ 36) (h : Separated arch bound other w own lost) {event : Event}
    (hc : event.Careful arch w) (he : w.step arch event = some (r, w')) :
    ∃ own' lost', Separated arch bound other w' own' lost' := by
  cases event with
  | init image => exact init_separated hb h hc he
  | call i call =>
    simp only [System.step, Option.bind_eq_bind, Option.bind_eq_some_iff] at he
    obtain ⟨p, hi, he⟩ := he
    split at he
    · exact doCall_separated hb (h.onCpu p) hi (hc p hi) he
    · cases he

theorem run_separated (hb : bound ≤ 2 ^ 36) : ∀ (events : List Event) {w w' : System} {own : List (List Nat)}
    {lost : List Nat} {rs : List Int}, Separated arch bound other w own lost → w.CarefulRun arch events →
    w.run arch events = some (rs, w') → ∃ own' lost', Separated arch bound other w' own' lost'
  | [], w, w', own, lost, rs, h, _, he => by
    cases he
    exact ⟨own, lost, h⟩
  | event :: events, w, w', own, lost, rs, h, hc, he => by
    simp only [System.run, Option.bind_eq_bind, Option.bind_eq_some_iff] at he
    obtain ⟨⟨r₁, w₁⟩, he₁, ⟨rs₂, w₂⟩, he₂, he⟩ := he
    cases he
    obtain ⟨own₁, lost₁, h₁⟩ := step_separated hb h hc.1 he₁
    exact run_separated hb events h₁ (hc.2 _ _ he₁) he₂

/-! ## Isolation -/

/-- No user address of a live process reaches a frame of another process or of a replaced image. -/
def Isolated (arch : Arch) (w : System) : Prop :=
  ∀ (i : Nat) (p : Process) (va pa : Nat) (flags : MappingFlags), w.procs[i]? = some p → p.live = true →
    va < arch.userAddressLimit → arch.translate w.machine.mem p.space.root va = some (pa, flags) →
    (∀ (j : Nat) (q : Process), w.procs[j]? = some q → j ≠ i → pa / pageSize * pageSize ∉ System.recorded q.space) ∧
      pa / pageSize * pageSize ∉ w.past

/-- A space that `empty` returns gives user code no page. -/
def EmptyHidden (arch : Arch) (m : Machine) : Prop :=
  ∀ (space : AddressSpace) (m' : Machine), AddressSpace.empty m = some (.ok space, m') →
    ∀ (va pa : Nat) (flags : MappingFlags), va < arch.userAddressLimit →
      arch.translate m'.mem space.root va = some (pa, flags) → flags.u = false

theorem Separated.isolated (h : Separated arch bound other w own lost) : Isolated arch w := by
  intro i p va pa flags hi _ hva ht
  obtain ⟨frames, hf⟩ := h.exists_own hi
  have hfences := h.fences hi hf
  have hpool := h.focus hf
  obtain ⟨f, hin, hpa⟩ : ∃ f ∈ frames, pa / pageSize * pageSize = f := by
    have hfences' := hfences
    obtain ⟨tables, own₁, rfl, hspans, hrec, hkey⟩ := hfences'
    obtain ⟨f, hR, rfl⟩ := hspans.translate hva ht
    have hin := List.mem_append_right tables (hrec.mem hR)
    have halign := (hpool.placed (List.mem_append_left _ hin)).1
    refine ⟨f, hin, ?_⟩
    unfold pageSize at *
    omega
  rw [hpa]
  have hnot : f ∉ (own.eraseIdx i).flatten ++ lost := List.disjoint_of_nodup_append hpool.nodup hin
  rw [List.mem_append, not_or] at hnot
  constructor
  · intro j q hj hne hm
    obtain ⟨⟨va', page⟩, hx, rfl⟩ := List.mem_map.1 hm
    obtain ⟨frames', hf'⟩ := h.exists_own hj
    have hpage := (h.fences hj hf').page_mem (Std.TreeMap.mem_toList_iff_getElem?_eq_some.1 hx)
    exact hnot.1 (mem_flatten_eraseIdx hf' hne _ hpage)
  · intro hm
    rcases h.past f hm with hl | hu
    · exact hnot.2 hl
    · have hused := isUsed_iff.2 (hpool.marked (List.mem_append_left _ hin))
      rw [hu] at hused
      cases hused

theorem Separated.emptyHidden (hb : bound ≤ 2 ^ 36) (h : Separated arch bound other w own lost) {m : Machine}
    (hm : m.mem = w.machine.mem) (hup : UpperEmpty arch m) : EmptyHidden arch m := by
  intro space m' he va pa flags hva ht
  have hpool : Pool bound m.mem.frames (own.flatten ++ lost) other := by
    rw [hm]
    exact h.pool
  obtain ⟨-, -, ⟨root, hr, hf⟩ | ⟨⟨e, hr⟩, -⟩⟩ := empty_fenced hb hpool hup he
  · cases hr
    obtain ⟨own₁, hrec, hkey, tables, hspans, -⟩ := hf
    obtain ⟨f, hR, -⟩ := hspans.translate hva ht
    obtain ⟨page, hp, -⟩ := get_of_maps hR
    have hp' : (∅ : Std.TreeMap Nat VmPage)[va / pageSize * pageSize]? = some page := hp
    rw [Std.TreeMap.getElem?_emptyc] at hp'
    cases hp'
  · cases hr

/-- **Memory isolation**: in every careful run of process calls, no user address of a live process translates to a frame
that another process or a replaced image recorded, and a new address space made there over a root with an empty upper half
gives user code no page. -/
theorem processes_isolated (arch : Arch) {m₀ : Machine} (halloc : Frame.Reach m₀.mem.frames other)
    (hbelow : ∀ r ∈ m₀.mem.frames.regions, r.startPpn + r.frames ≤ 2 ^ 36) (events : List Event)
    (hcareful : System.CarefulRun arch ⟨m₀, [], []⟩ events) {rs : List Int} {w : System}
    (hrun : System.run arch ⟨m₀, [], []⟩ events = some (rs, w)) :
    Isolated arch w ∧ ∀ m : Machine, m.mem = w.machine.mem → UpperEmpty arch m → EmptyHidden arch m := by
  have hpool : Pool (2 ^ 36) m₀.mem.frames [] other := ⟨halloc.inv, hbelow⟩
  have hinit : Separated arch (2 ^ 36) other ⟨m₀, [], []⟩ [] [] := ⟨rfl, nofun, hpool, nofun⟩
  obtain ⟨own, lost, h⟩ := run_separated (Nat.le_refl _) events hinit hcareful hrun
  exact ⟨h.isolated, fun m hm hup => h.emptyHidden (Nat.le_refl _) hm hup⟩

end Run

/-- A program of one page and a page of stack. -/
def sampleImage (stack : Nat) : List Load :=
  [⟨0x10000, ⟨true, false, true, true⟩, true, fun i => i⟩, ⟨stack, ⟨true, true, false, true⟩, false, fun _ => 0⟩]

/-- A first process maps a page and makes a child, which runs another program. -/
def sampleRun : List Event :=
  [.init (sampleImage 0xf_ffff_f000), .call 0 (.mmap 0x3000 0x1000 3 0x32 (.error (-9))), .call 0 (.clone 0 0 true),
    .call 1 (.execve (sampleImage 0xf_ffff_f000) true), .call 1 (.store 0xf_ffff_f000 fun i => i + 1),
    .call 0 (.munmap 0x3000 0x1000)]

theorem processes_isolated_sample :
    ∃ rs w, System.run .riscv64 ⟨freshMachine, [], []⟩ sampleRun = some (rs, w) ∧ rs = [0, 0x3000, 2, 0, 0, 0] ∧
      Isolated .riscv64 w := by
  have hok : ((System.run .riscv64 ⟨freshMachine, [], []⟩ sampleRun).map fun x => x.1) = some [0, 0x3000, 2, 0, 0, 0] := by
    decide +kernel
  obtain ⟨⟨rs, w⟩, hrun, hrs⟩ := Option.map_eq_some_iff.1 hok
  have hadd : FrameAllocator.new.addRegion 0x1000 0x20000 = some freshMachine.mem.frames := rfl
  have hreach : Frame.Reach freshMachine.mem.frames [] := .add .new (by decide) (by decide) hadd
  have hup : ∀ m : Machine, UpperEmpty .riscv64 m := fun m i h₁ h₂ => absurd h₂ (Nat.not_lt.2 h₁)
  have hcareful : System.CarefulRun .riscv64 ⟨freshMachine, [], []⟩ sampleRun :=
    ⟨hup _, fun _ _ _ => ⟨fun _ _ => trivial, fun _ _ _ => ⟨fun _ _ => ⟨hup _, fun h => absurd rfl h⟩, fun _ _ _ =>
      ⟨fun _ _ => hup _, fun _ _ _ => ⟨fun _ _ => trivial, fun _ _ _ => ⟨fun _ _ => trivial, fun _ _ _ => trivial⟩⟩⟩⟩⟩⟩
  exact ⟨rs, w, hrun, hrs, (processes_isolated .riscv64 hreach (by decide) sampleRun hcareful hrun).1⟩

/-- A process maps a page at `2 ^ 47` and runs another program. -/
def upperRun : List Event :=
  [.init (sampleImage 0x7f_ffff_f000), .call 0 (.mmap 0x8000_0000_0000 0x1000 3 0x32 (.error (-9))),
    .call 0 (.execve (sampleImage 0x7f_ffff_f000) true)]

/-- On aarch64 the new program translates `2 ^ 47` to the frame of its predecessor, which nobody gives back. -/
theorem execve_shares_upper_half :
    ∃ rs w p pa flags, System.run .aarch64 ⟨freshMachine, [], []⟩ upperRun = some (rs, w) ∧ w.procs[0]? = some p ∧
      p.live = true ∧ 0x8000_0000_0000 < Arch.userAddressLimit .aarch64 ∧
      Arch.translate .aarch64 w.machine.mem p.space.root 0x8000_0000_0000 = some (pa, flags) ∧
      pa / pageSize * pageSize ∈ w.past := by
  have hok : ((System.run .aarch64 ⟨freshMachine, [], []⟩ upperRun).any fun x => (x.2.procs[0]?).any fun p =>
      p.live && (Arch.translate .aarch64 x.2.machine.mem p.space.root 0x8000_0000_0000).any fun t =>
        x.2.past.contains (t.1 / pageSize * pageSize)) = true := by
    decide +kernel
  obtain ⟨⟨rs, w⟩, hrun, hok⟩ := (Option.any_eq_true _ _).1 hok
  obtain ⟨p, hp, hok⟩ := (Option.any_eq_true _ _).1 hok
  obtain ⟨hlive, hok⟩ := Bool.and_eq_true_iff.1 hok
  obtain ⟨⟨pa, flags⟩, ht, hpast⟩ := (Option.any_eq_true _ _).1 hok
  exact ⟨rs, w, p, pa, flags, hrun, hp, hlive, by decide, ht, List.contains_iff_mem.1 hpast⟩

end Koros.Mm
