import Koros.Lib.Text
import Koros.Mm.Enough
import Koros.Mmu.Refine
import Koros.User.Memory

/-!
# The initial stack of a program

`setup_user_stack` of `korix/src/user/elf.rs`: the pages of the stack are mapped, the strings are pushed from the top
down, and the array of `argc`, `argv`, `envp` and the auxiliary vector goes below them. `readStack` is what a program does
with the stack pointer it is given.

- `pushArgs_spec`: the arguments are pushed one below the other;
- `setupUserStack_decodes`: with at most 256 arguments shorter than 4096 bytes, the program reads back the arguments, the
  environment and the auxiliary vector, from objects that do not overlap, and nothing outside the stack changes;
- `setupUserStack_enough`: with enough frames the stack is set up.
-/
set_option autoImplicit false

namespace Koros.Mm

open Koros.Frame Koros.Mmu Koros.Lib

/-! ## The model -/

/-- `STACK_TOP`. -/
def Arch.stackTop : Arch → Nat
  | riscv64 => 0x10_0000_0000
  | x86_64 => 0x8_0000_0000
  | aarch64 => 0x80_0000_0000

/-- `STACK_SIZE`. -/
def stackSize : Nat := 8 * 1024 * 1024

def Arch.stackBase (arch : Arch) : Nat := arch.stackTop - stackSize

/-- `(sp - n) & !0xF` on `usize`. -/
def pushDown (sp n : Nat) : Nat := (sp + 2 ^ 64 - n) % 2 ^ 64 / 16 * 16

/-- `PROGRAM_HEADER_SIZE`. -/
def programHeaderSize : Nat := 56

/-- The environment string, with its terminator. -/
def env0 : List Byte := asBytes "PATH=/usr/local/sbin:/usr/local/bin:/usr/sbin:/usr/bin:/sbin:/bin" ++ [0]

/-- The auxiliary vector without its end. -/
def auxv (entry phdrAddr phnum interpreterBase randomOff execfn : Nat) : List (Nat × Nat) :=
  [(3, phdrAddr), (4, programHeaderSize), (5, phnum), (6, pageSize), (7, interpreterBase), (9, entry), (11, 0), (12, 0),
    (13, 0), (14, 0), (23, 0), (25, randomOff), (31, execfn)]

section Model

variable (arch : Arch)

/-- The loop over the pages of the stack. -/
def mapStack (flags : MappingFlags) :
    List Nat → AddressSpace → Machine → Option (Except String Unit × AddressSpace × Machine)
  | [], space, m => some (.ok (), space, m)
  | vaddr :: rest, space, m => do
    match ← space.mapZeroed arch m vaddr flags with
    | (.error _, space, m) => some (.error "map user stack failed", space, m)
    | (.ok _, space, m) => mapStack flags rest space m

/-- The `?` operator. -/
def andThen {α β : Type} (x : Except String α × Machine) (next : α → Machine → Except String β × Machine) :
    Except String β × Machine :=
  match x with
  | (.error e, m) => (.error e, m)
  | (.ok a, m) => next a m

/-- `.map_err(|_| error)?`. -/
def attempt {α β : Type} (x : Except MapError α × Machine) (error : String)
    (next : α → Machine → Except String β × Machine) : Except String β × Machine :=
  match x with
  | (.error _, m) => (.error error, m)
  | (.ok a, m) => next a m

/-- The loop over the arguments, the last one first; `offsets` are those of the arguments that were pushed. -/
def pushArgs (space : AddressSpace) :
    List (List Byte) → (sp : Nat) → (offsets : List Nat) → Machine → Except String (Nat × List Nat) × Machine
  | [], sp, offsets, m => (.ok (sp, offsets), m)
  | bytes :: rest, sp, offsets, m =>
    let sp := pushDown sp (bytes.length + 1)
    attempt (space.write arch m sp bytes) "write argument" fun _ m =>
    attempt (space.write arch m (sp + bytes.length) [0]) "terminate argument" fun _ m =>
    pushArgs space rest sp (offsets ++ [sp]) m

/-- The words of the array at the stack pointer. -/
def stackWords (offsets : List Nat) (env0Off : Nat) (auxv : List (Nat × Nat)) : List Nat :=
  offsets.length :: (offsets ++ [0]) ++ ([env0Off] ++ [0]) ++ (auxv.flatMap (fun x => [x.1, x.2]) ++ [0, 0])

/-- The array below the strings. -/
def writeArray (space : AddressSpace) (entry phdrAddr phnum interpreterBase randomOff env0Off sp : Nat)
    (offsets : List Nat) (m : Machine) : Except String Nat × Machine :=
  let execfn := offsets.head?.getD 0
  let words := stackWords offsets env0Off (auxv entry phdrAddr phnum interpreterBase randomOff execfn)
  let arrayBase := pushDown sp (words.length * 8)
  attempt (space.write arch m arrayBase (words.flatMap (leBytes 8))) "write initial stack" fun _ m => (.ok arrayBase, m)

/-- What `setup_user_stack` writes once the pages are mapped. -/
def fillStack (space : AddressSpace) (m : Machine) (entry phdrAddr phnum interpreterBase : Nat) (argv : List String) :
    Except String Nat × Machine :=
  let randomOff := pushDown arch.stackTop 16
  attempt (space.write arch m randomOff (List.replicate 16 0x42)) "write random" fun _ m =>
  let env0Off := pushDown randomOff env0.length
  attempt (space.write arch m env0Off env0) "write environment" fun _ m =>
  andThen (pushArgs arch space (argv.reverse.map asBytes) env0Off [] m) fun (sp, pushed) m =>
  writeArray arch space entry phdrAddr phnum interpreterBase randomOff env0Off sp pushed.reverse m

/-- The `?` operator after the pages were mapped. -/
def thenFill {α : Type} (fill : AddressSpace → Machine → Except String α × Machine) :
    Except String Unit × AddressSpace × Machine → Except String α × AddressSpace × Machine
  | (.error e, space, m) => (.error e, space, m)
  | (.ok (), space, m) =>
    let (r, m) := fill space m
    (r, space, m)

def setupUserStack (space : AddressSpace) (m : Machine) (entry phdrAddr phnum interpreterBase : Nat)
    (argv : List String) : Option (Except String Nat × AddressSpace × Machine) :=
  (mapStack arch ⟨true, true, false, true⟩ (stepBy arch.stackBase arch.stackTop) space m).map
    (thenFill fun space m => fillStack arch space m entry phdrAddr phnum interpreterBase argv)

end Model

/-! ## What a program reads -/

/-- What a program finds on its stack. -/
structure Found where
  argv : List (List Byte)
  envp : List (List Byte)
  auxv : List (Nat × Nat)
deriving DecidableEq, Repr

/-- Read the number of arguments, as many pointers to strings with a null pointer behind them, the environment, and the
auxiliary vector up to `AT_NULL`. -/
def readStack (v : Partial) (fuel sp : Nat) : Option Found := do
  let argc ← readLe v 8 sp
  let pointers ← readPointers v fuel (sp + 8)
  if pointers.length ≠ argc then none
  else
    let argv ← pointers.mapM (readString v fuel)
    let env := sp + 8 + 8 * (argc + 1)
    let pointers ← readPointers v fuel env
    let envp ← pointers.mapM (readString v fuel)
    let auxv ← readPairs v fuel (env + 8 * (pointers.length + 1))
    some ⟨argv, envp, auxv⟩

/-- The objects of the stack: the array, the arguments, the environment string and the random bytes. -/
def stackObjects (sp : Nat) (pointers : List Nat) (envPtr randomOff : Nat) (argv : List String)
    (auxv : List (Nat × Nat)) : List (Nat × List Byte) :=
  [(sp, (stackWords pointers envPtr auxv).flatMap (leBytes 8))] ++ pointers.zip (argv.map fun a => asBytes a ++ [0]) ++
    [(envPtr, env0), (randomOff, List.replicate 16 0x42)]

/-! ## Mapping the pages -/

section Proofs

variable {arch : Arch} {bound : Nat} {other : List Extent} {rest : List Nat} {space space' : AddressSpace} {m m' : Machine}

/-- The pages of the stack are new and zero. -/
theorem mapStack_spec (hb : bound ≤ 2 ^ 36) {flags : MappingFlags} : ∀ (vas : List Nat) {space space' : AddressSpace}
    {m m' : Machine}, Fenced arch bound other rest m.mem space →
    mapStack arch flags vas space m = some (.ok (), space', m') →
    Stays arch bound other rest space m space' m' ∧
      (∀ va, va ∉ vas → space'.pages[va]? = space.pages[va]?) ∧
      ∀ w, pageOf w ∉ vas → space'.userByte m'.mem w = space.userByte m.mem w
  | [], space, space', m, m', h, he => by
    cases he
    exact ⟨Stays.refl h, fun _ _ => rfl, fun _ _ => rfl⟩
  | va :: vas, space, space', m, m', h, he => by
    simp only [mapStack, Option.bind_eq_bind, Option.bind_eq_some_iff] at he
    obtain ⟨⟨r₁, space₁, m₁⟩, he₁, he⟩ := he
    cases r₁ with
    | error e => cases he
    | ok p =>
      obtain ⟨h₁, -⟩ := mapZeroed_stays hb h he₁
      obtain ⟨-, -, -, -, hbytes⟩ := mapZeroed_bytes hb h he₁
      obtain ⟨h₂, hpages, hrest⟩ := mapStack_spec hb vas h₁.fenced he
      refine ⟨h₁.trans h₂, fun w hw => ?_, fun w hw => ?_⟩
      · rw [List.mem_cons, not_or] at hw
        rw [hpages w hw.2, mapZeroed_pages he₁ hw.1]
      · rw [List.mem_cons, not_or] at hw
        rw [hrest w hw.2, hbytes w, if_neg hw.1]

/-! ## Pushing -/

theorem andThen_ok {α β : Type} {x : Except String α × Machine} {next : α → Machine → Except String β × Machine} {b : β}
    (he : andThen x next = (.ok b, m')) : ∃ a m₁, x = (.ok a, m₁) ∧ next a m₁ = (.ok b, m') := by
  obtain ⟨r, m₁⟩ := x
  cases r with
  | error e => cases he
  | ok a => exact ⟨a, m₁, rfl, he⟩

theorem thenFill_ok {α : Type} {fill : AddressSpace → Machine → Except String α × Machine}
    {x : Except String Unit × AddressSpace × Machine} {a : α} (he : thenFill fill x = (.ok a, space', m')) :
    ∃ m₁, x = (.ok (), space', m₁) ∧ fill space' m₁ = (.ok a, m') := by
  obtain ⟨r, space₁, m₁⟩ := x
  cases r with
  | error e => cases he
  | ok _ =>
    simp only [thenFill, Prod.mk.injEq] at he
    obtain ⟨hr, rfl, rfl⟩ := he
    exact ⟨m₁, rfl, by rw [← hr]⟩

theorem attempt_ok {α β : Type} {x : Except MapError α × Machine} {error : String}
    {next : α → Machine → Except String β × Machine} {b : β} (he : attempt x error next = (.ok b, m')) :
    ∃ a m₁, x = (.ok a, m₁) ∧ next a m₁ = (.ok b, m') := by
  obtain ⟨r, m₁⟩ := x
  cases r with
  | error e => cases he
  | ok a => exact ⟨a, m₁, rfl, he⟩

theorem pushDown_spec (sp n : Nat) (hn : n ≤ sp) (hsp : sp < 2 ^ 64) :
    pushDown sp n + n ≤ sp ∧ sp < pushDown sp n + n + 16 ∧ pushDown sp n % 16 = 0 := by
  have h : (sp + 2 ^ 64 - n) % 2 ^ 64 = sp - n := by omega
  rw [pushDown, h]
  omega

/-- **The arguments are pushed** one below the other, each with its terminator. -/
theorem pushArgs_spec : ∀ (args : List (List Byte)) {sp sp' : Nat} {offsets offsets' : List Nat} {m m' : Machine},
    Fenced arch bound other rest m.mem space → (∀ a ∈ args, a.length < 4096) → 4112 * args.length ≤ sp → sp < 2 ^ 64 →
    pushArgs arch space args sp offsets m = (.ok (sp', offsets'), m') →
    ∃ objects : List (Nat × List Byte), objects.map Prod.snd = args.map (· ++ [0]) ∧
      offsets' = offsets ++ objects.map Prod.fst ∧ Stacked sp objects ∧ sp' = bottom sp objects ∧
      sp ≤ sp' + 4112 * args.length ∧ Stays arch bound other rest space m space m' ∧
      space.userByte m'.mem = overlayAll (space.userByte m.mem) objects := by
  intro args
  induction args with
  | nil =>
    intro sp sp' offsets offsets' m m' h _ _ _ he
    cases he
    exact ⟨[], rfl, (List.append_nil _).symm, trivial, rfl, Nat.le_add_right .., Stays.refl h, rfl⟩
  | cons bytes args ih =>
    intro sp sp' offsets offsets' m m' h hlen hfit hsp he
    have hb := hlen bytes List.mem_cons_self
    rw [List.length_cons] at hfit
    obtain ⟨h₁, h₂, -⟩ := pushDown_spec sp (bytes.length + 1) (by omega) hsp
    have hfit' : 4112 * args.length ≤ pushDown sp (bytes.length + 1) := by omega
    have hlow : sp ≤ pushDown sp (bytes.length + 1) + 4112 := by omega
    have hsp' : pushDown sp (bytes.length + 1) < 2 ^ 64 := by omega
    have hobj : pushDown sp (bytes.length + 1) + (bytes ++ [0]).length ≤ sp := by
      rw [List.length_append, List.length_singleton]
      exact h₁
    clear h₁ h₂ hfit hsp hb
    simp only [pushArgs] at he
    generalize pushDown sp (bytes.length + 1) = p at he hfit' hlow hsp' hobj
    obtain ⟨_, m₁, hw, he₁⟩ := attempt_ok he
    obtain ⟨hs₁, hv₁⟩ := write_stays h hw
    obtain ⟨_, m₂, hw₂, he₂⟩ := attempt_ok he₁
    obtain ⟨hs₂, hv₂⟩ := write_stays hs₁.fenced hw₂
    obtain ⟨objects, hsnd, hoff, hst, hbot, hle, hs, hv⟩ := ih hs₂.fenced
      (fun a ha => hlen a (List.mem_cons_of_mem _ ha)) hfit' hsp' he₂
    refine ⟨(p, bytes ++ [0]) :: objects, ?_, ?_, ⟨hobj, hst⟩, hbot, ?_, (hs₁.trans hs₂).trans hs, ?_⟩
    · rw [List.map_cons, List.map_cons, hsnd]
    · rw [hoff, List.map_cons, List.append_assoc, List.singleton_append]
    · rw [List.length_cons, Nat.mul_succ, ← Nat.add_assoc]
      exact Nat.le_trans hlow (Nat.add_le_add_right hle 4112)
    · rw [hv, hv₂, hv₁, overlayAll, overlay_append]

/-- Objects above and below others. -/
theorem stacked_frame {top a b c : Nat} {x y z : List Byte} {objects : List (Nat × List Byte)}
    (hx : a + x.length ≤ top) (hy : b + y.length ≤ a) (hst : Stacked b objects) (hz : c + z.length ≤ bottom b objects) :
    Stacked top ([(a, x), (b, y)] ++ objects ++ [(c, z)]) ∧ bottom top ([(a, x), (b, y)] ++ objects ++ [(c, z)]) = c := by
  rw [stacked_append, stacked_append, bottom_append, bottom_append]
  exact ⟨⟨⟨⟨hx, hy, trivial⟩, hst⟩, hz, trivial⟩, rfl⟩

theorem Arch.stackTop_bounds (arch : Arch) : stackSize ≤ arch.stackTop ∧ arch.stackTop < 2 ^ 64 := by
  cases arch <;> decide

theorem length_env0 : env0.length = 66 := by decide +kernel

theorem length_stackWords (offsets : List Nat) (env0Off : Nat) (entry phdrAddr phnum interpreterBase randomOff execfn : Nat) :
    (stackWords offsets env0Off (auxv entry phdrAddr phnum interpreterBase randomOff execfn)).length =
      offsets.length + 32 := by
  simp [stackWords, auxv]

section Fill

variable {entry phdrAddr phnum interpreterBase sp : Nat} {argv : List String}

/-- **What is written on the stack**: its objects, one below the other. -/
theorem fillStack_spec (h : Fenced arch bound other rest m.mem space) (hargc : argv.length ≤ 256)
    (hargs : ∀ a ∈ argv, (asBytes a).length < 4096)
    (he : fillStack arch space m entry phdrAddr phnum interpreterBase argv = (.ok sp, m')) :
    ∃ pointers envPtr randomOff, pointers.length = argv.length ∧
      ∃ objects, objects.reverse = stackObjects sp pointers envPtr randomOff argv
          (auxv entry phdrAddr phnum interpreterBase randomOff (pointers.head?.getD 0)) ∧
        Stacked arch.stackTop objects ∧ bottom arch.stackTop objects = sp ∧ sp % 16 = 0 ∧ arch.stackBase ≤ sp ∧
        Stays arch bound other rest space m space m' ∧
        space.userByte m'.mem = overlayAll (space.userByte m.mem) objects := by
  obtain ⟨htop, htop'⟩ := arch.stackTop_bounds
  have henv := length_env0
  have hbase : arch.stackBase + 8388608 = arch.stackTop := by
    have : stackSize = 8388608 := by decide
    rw [Arch.stackBase, ← this]
    omega
  obtain ⟨hr₁, hr₂, -⟩ := pushDown_spec arch.stackTop 16 (by omega) htop'
  simp only [fillStack] at he
  generalize pushDown arch.stackTop 16 = randomOff at he hr₁ hr₂
  obtain ⟨_, m₁, hw, he⟩ := attempt_ok he
  obtain ⟨hs₁, hv₁⟩ := write_stays h hw
  obtain ⟨hn₁, hn₂, -⟩ := pushDown_spec randomOff env0.length (by omega) (by omega)
  generalize pushDown randomOff env0.length = envPtr at he hn₁ hn₂
  obtain ⟨_, m₂, hw₂, he⟩ := attempt_ok he
  obtain ⟨hs₂, hv₂⟩ := write_stays hs₁.fenced hw₂
  obtain ⟨⟨sp₃, pushed⟩, m₃, hp, he⟩ := andThen_ok he
  have hlen : (argv.reverse.map asBytes).length = argv.length := by simp
  obtain ⟨objs, hsnd, hoff, hst, hbot, hle, hs₃, hv₃⟩ := pushArgs_spec (argv.reverse.map asBytes) hs₂.fenced
    (fun a ha => by
      obtain ⟨b, hb, rfl⟩ := List.mem_map.1 ha
      exact hargs b (List.mem_reverse.1 hb)) (by rw [hlen]; omega) (by omega) hp
  rw [List.nil_append] at hoff
  subst hoff hbot
  rw [hlen] at hle
  simp only [writeArray] at he
  have hcount : (objs.map Prod.fst).reverse.length = argv.length := by
    rw [List.length_reverse, List.length_map, ← List.length_map (f := Prod.snd), hsnd, List.length_map, hlen]
  generalize hpt : (objs.map Prod.fst).reverse = pointers at he hcount
  generalize hwords : stackWords pointers envPtr (auxv entry phdrAddr phnum interpreterBase randomOff
    (pointers.head?.getD 0)) = words at he
  have hwlen : words.length = argv.length + 32 := by rw [← hwords, length_stackWords, hcount]
  have hb₃ := hst.bottom_le
  obtain ⟨ha₁, ha₂, ha₃⟩ := pushDown_spec (bottom envPtr objs) (words.length * 8) (by omega) (by omega)
  generalize pushDown (bottom envPtr objs) (words.length * 8) = base at he ha₁ ha₂ ha₃
  obtain ⟨_, m₄, hw₄, he⟩ := attempt_ok he
  obtain ⟨hs₄, hv₄⟩ := write_stays hs₃.fenced hw₄
  cases he
  have hzip : objs.reverse = pointers.zip (argv.map fun a => asBytes a ++ [0]) := by
    have hstr : objs.reverse.map Prod.snd = argv.map fun a => asBytes a ++ [0] := by
      rw [List.map_reverse, hsnd, List.map_map, List.map_reverse, List.reverse_reverse]
      rfl
    exact List.zip_of_prod (by rw [← hpt, List.map_reverse]) hstr
  have hlow : arch.stackBase ≤ sp := by omega
  rw [← List.length_replicate (n := 16) (a := (0x42 : Byte))] at hr₁
  rw [Nat.mul_comm, ← length_words] at ha₁
  have hstacked := stacked_frame hr₁ hn₁ hst ha₁
  clear hw hw₂ hw₄ hp
  refine ⟨pointers, envPtr, randomOff, hcount, [(randomOff, List.replicate 16 0x42), (envPtr, env0)] ++ objs ++
    [(sp, words.flatMap (leBytes 8))], ?_, hstacked.1, hstacked.2, ha₃, hlow, ((hs₁.trans hs₂).trans hs₃).trans hs₄, ?_⟩
  · rw [stackObjects, hwords, ← hzip]
    simp only [List.reverse_append, List.reverse_cons, List.reverse_nil, List.nil_append, List.append_assoc,
      List.singleton_append]
  · rw [overlayAll_append, overlayAll_append, hv₄, hv₃, hv₂, hv₁]
    simp only [overlayAll]

/-- The parts of the array. -/
theorem at_stackWords {v : Partial} {pointers : List Nat} {envPtr : Nat} {aux : List (Nat × Nat)}
    (h : At v sp ((stackWords pointers envPtr aux).flatMap (leBytes 8))) :
    At v (sp + 8) ((pointers ++ [0]).flatMap (leBytes 8)) ∧
      At v (sp + 8 + 8 * (pointers.length + 1)) (([envPtr] ++ [0]).flatMap (leBytes 8)) ∧
      At v (sp + 8 + 8 * (pointers.length + 1) + 8 * ([envPtr].length + 1))
        ((aux.flatMap (fun x : Nat × Nat => [x.1, x.2]) ++ [0, 0]).flatMap (leBytes 8)) := by
  rw [stackWords, List.flatMap_append, at_append, List.flatMap_append, at_append, List.flatMap_cons, at_append] at h
  simp only [List.length_append, length_words, length_leBytes, List.length_singleton] at h
  obtain ⟨⟨⟨-, h₁⟩, h₂⟩, h₃⟩ := h
  refine ⟨h₁, ?_, ?_⟩
  · rwa [Nat.add_assoc]
  · rwa [List.length_singleton, Nat.add_assoc, Nat.add_assoc]

/-- A program reads its arguments from the objects. -/
theorem readStack_of_objects {v : Partial} {pointers : List Nat} {envPtr fuel : Nat} {aux : List (Nat × Nat)}
    {objects : List (Nat × List Byte)} {path : List Byte} (hfuel : 4096 ≤ fuel)
    (harray : At v sp ((stackWords pointers envPtr aux).flatMap (leBytes 8)))
    (hobj : objects = pointers.zip (argv.map fun a => asBytes a ++ [0])) (hall : ∀ x ∈ objects, At v x.1 x.2)
    (hlen : pointers.length = argv.length) (hargc : argv.length ≤ 256)
    (hargs : ∀ a ∈ argv, (asBytes a).length < 4096 ∧ 0 ∉ asBytes a) (hptr : ∀ p ∈ pointers, p ≠ 0 ∧ p < 256 ^ 8)
    (henv : At v envPtr (path ++ [0])) (hpath : path.length < 4096 ∧ 0 ∉ path) (hne : envPtr ≠ 0 ∧ envPtr < 256 ^ 8)
    (haux : aux.length < 4096 ∧ ∀ x ∈ aux, x.1 ≠ 0 ∧ x.1 < 256 ^ 8 ∧ x.2 < 256 ^ 8) :
    readStack v fuel sp = some ⟨argv.map asBytes, [path], aux⟩ := by
  obtain ⟨h₁, h₂, h₃⟩ := at_stackWords harray
  have hargc' : readLe v 8 sp = some argv.length := by
    have := readLe_words (i := 0) harray (x := pointers.length) rfl
    rwa [Nat.mul_zero, Nat.add_zero, hlen, Nat.mod_eq_of_lt (by omega)] at this
  have hptrs : readPointers v fuel (sp + 8) = some pointers := readPointers_of_at (by omega) hptr h₁
  have hfst : objects.map Prod.fst = pointers := by
    rw [hobj, List.map_fst_zip]
    rw [List.length_map, hlen]
  have hsnd : objects.map Prod.snd = (argv.map asBytes).map (· ++ [0]) := by
    rw [hobj, List.map_snd_zip, List.map_map]
    · rfl
    · rw [List.length_map, hlen]
  have hstrings : pointers.mapM (readString v fuel) = some (argv.map asBytes) := by
    rw [← hfst]
    refine readStrings_of_at hsnd hall fun t ht => ?_
    obtain ⟨a, ha, rfl⟩ := List.mem_map.1 ht
    obtain ⟨h₄, h₅⟩ := hargs a ha
    exact ⟨by omega, h₅⟩
  have henvs : readPointers v fuel (sp + 8 + 8 * (argv.length + 1)) = some [envPtr] := by
    refine readPointers_of_at (by simp; omega) (fun x hx => ?_) (hlen ▸ h₂)
    obtain rfl := List.mem_singleton.1 hx
    exact hne
  have henvString : [envPtr].mapM (readString v fuel) = some [path] := by
    have : readString v fuel envPtr = some path := readString_of_at (by omega) hpath.2 henv
    simp [this]
  have hpairs : readPairs v fuel (sp + 8 + 8 * (argv.length + 1) + 8 * ([envPtr].length + 1)) = some aux :=
    readPairs_of_at (by omega) haux.2 (hlen ▸ h₃)
  rw [readStack]
  simp only [hargc', hptrs, Option.bind_eq_bind, Option.bind_some, hlen, ne_eq, not_true_eq_false, if_false, hstrings,
    henvs, henvString, hpairs]

/-- What `setup_user_stack` is to leave behind: at `sp` a program reads the arguments, the environment and the auxiliary
vector; the objects are on the stack and do not overlap; nothing else changed. -/
structure StackBuilt (arch : Arch) (rest : List Nat) (entry phdrAddr phnum interpreterBase : Nat) (argv : List String)
    (space : AddressSpace) (m : Machine) (sp : Nat) (space' : AddressSpace) (m' : Machine) : Prop where
  aligned : sp % 16 = 0
  inside : arch.stackBase ≤ sp ∧ sp < arch.stackTop
  decoded : ∃ pointers envPtr randomOff, pointers.length = argv.length ∧
    let aux := auxv entry phdrAddr phnum interpreterBase randomOff (pointers.head?.getD 0)
    let objects := stackObjects sp pointers envPtr randomOff argv aux
    objects.Pairwise NoOverlap ∧
      (∀ x ∈ objects, arch.stackBase ≤ x.1 ∧ x.1 + x.2.length ≤ arch.stackTop ∧ At (space'.userByte m'.mem) x.1 x.2) ∧
      ∀ fuel, 4096 ≤ fuel →
        readStack (space'.userByte m'.mem) fuel sp = some ⟨argv.map asBytes, [env0.dropLast], aux⟩
  outside : ∀ w, w < arch.stackBase ∨ arch.stackTop ≤ w → space'.userByte m'.mem w = space.userByte m.mem w
  others : Same rest m.mem m'.mem

theorem env0_spec : env0 = env0.dropLast ++ [0] ∧ env0.dropLast.length < 4096 ∧ 0 ∉ env0.dropLast := by
  decide +kernel

/-- The pages of the stack. -/
theorem pageOf_notMem_stack {w : Nat} (hw : w < arch.stackBase ∨ arch.stackTop ≤ w) :
    pageOf w ∉ stepBy arch.stackBase arch.stackTop := by
  intro hmem
  obtain ⟨h₁, h₂, h₃⟩ := mem_stepBy hmem
  have hbase : arch.stackBase % 4096 = 0 ∧ arch.stackTop % 4096 = 0 := by cases arch <;> decide
  have h₄ := h₃ hbase.1
  unfold pageOf pageSize at *
  omega

/-- The values of the auxiliary vector are words. -/
theorem auxv_words {randomOff execfn : Nat}
    (hwords : entry ≤ usizeMax ∧ phdrAddr ≤ usizeMax ∧ phnum ≤ usizeMax ∧ interpreterBase ≤ usizeMax)
    (hrandom : randomOff < 256 ^ 8) (hexec : execfn < 256 ^ 8) :
    ∀ x ∈ auxv entry phdrAddr phnum interpreterBase randomOff execfn, x.1 ≠ 0 ∧ x.1 < 256 ^ 8 ∧ x.2 < 256 ^ 8 := by
  have hmax : usizeMax < 256 ^ 8 := by decide
  have hsize : programHeaderSize < 256 ^ 8 ∧ pageSize < 256 ^ 8 := by decide
  obtain ⟨h₁, h₂, h₃, h₄⟩ := hwords
  intro x hx
  simp only [auxv, List.mem_cons, List.not_mem_nil, or_false] at hx
  rcases hx with rfl | rfl | rfl | rfl | rfl | rfl | rfl | rfl | rfl | rfl | rfl | rfl | rfl
  all_goals exact ⟨by simp, by simp, by omega⟩

/-- The objects of the stack hold what a program reads. -/
theorem stackBuilt_decoded {v : Partial} {pointers : List Nat} {envPtr randomOff : Nat} (hargc : argv.length ≤ 256)
    (hargs : ∀ a ∈ argv, (asBytes a).length < 4096 ∧ 0 ∉ asBytes a)
    (hwords : entry ≤ usizeMax ∧ phdrAddr ≤ usizeMax ∧ phnum ≤ usizeMax ∧ interpreterBase ≤ usizeMax)
    (hlen : pointers.length = argv.length)
    (hall : ∀ x ∈ stackObjects sp pointers envPtr randomOff argv
      (auxv entry phdrAddr phnum interpreterBase randomOff (pointers.head?.getD 0)),
      arch.stackBase ≤ x.1 ∧ x.1 + x.2.length ≤ arch.stackTop ∧ At v x.1 x.2) {fuel : Nat} (hfuel : 4096 ≤ fuel) :
    readStack v fuel sp = some ⟨argv.map asBytes, [env0.dropLast],
      auxv entry phdrAddr phnum interpreterBase randomOff (pointers.head?.getD 0)⟩ := by
  have hbounds : 0 < arch.stackBase ∧ arch.stackTop < 256 ^ 8 := by cases arch <;> decide
  obtain ⟨henv₁, henv₂, henv₃⟩ := env0_spec
  have hstrings : ∀ x ∈ pointers.zip (argv.map fun a => asBytes a ++ [0]), arch.stackBase ≤ x.1 ∧
      x.1 + x.2.length ≤ arch.stackTop ∧ At v x.1 x.2 := fun x hx =>
    hall x (List.mem_append_left _ (List.mem_append_right _ hx))
  have hptr : ∀ p ∈ pointers, p ≠ 0 ∧ p < 256 ^ 8 := by
    intro p hp
    have hzip : (pointers.zip (argv.map fun a => asBytes a ++ [0])).map Prod.fst = pointers :=
      List.map_fst_zip (by rw [List.length_map, hlen])
    rw [← hzip] at hp
    obtain ⟨x, hx, rfl⟩ := List.mem_map.1 hp
    obtain ⟨h₁, h₂, -⟩ := hstrings x hx
    omega
  have hexec : pointers.head?.getD 0 < 256 ^ 8 := by
    cases pointers with
    | nil => decide
    | cons p _ => exact (hptr p List.mem_cons_self).2
  obtain ⟨harr₁, harr₂, harr⟩ := hall _ (List.mem_append_left _ (List.mem_append_left _ (List.mem_singleton_self _)))
  obtain ⟨he₁, he₂, he₃⟩ := hall (envPtr, env0) (List.mem_append_right _ List.mem_cons_self)
  obtain ⟨hr₁, hr₂, -⟩ := hall (randomOff, List.replicate 16 0x42)
    (List.mem_append_right _ (List.mem_cons_of_mem _ List.mem_cons_self))
  dsimp only at he₁ he₂ he₃ hr₁ hr₂ harr
  rw [henv₁] at he₃
  exact readStack_of_objects hfuel harr rfl (fun x hx => (hstrings x hx).2.2) hlen hargc hargs hptr he₃
    ⟨henv₂, henv₃⟩ ⟨by omega, by omega⟩ ⟨by simp [auxv], auxv_words hwords (by omega) hexec⟩

/-- **The initial stack decodes back**: for at most 256 arguments shorter than 4096 bytes and without zero bytes, in every
address space that is kept apart from the frames of others. -/
theorem setupUserStack_decodes (hb : bound ≤ 2 ^ 36) (h : Fenced arch bound other rest m.mem space)
    (hargc : argv.length ≤ 256) (hargs : ∀ a ∈ argv, (asBytes a).length < 4096 ∧ 0 ∉ asBytes a)
    (hwords : entry ≤ usizeMax ∧ phdrAddr ≤ usizeMax ∧ phnum ≤ usizeMax ∧ interpreterBase ≤ usizeMax)
    (he : setupUserStack arch space m entry phdrAddr phnum interpreterBase argv = some (.ok sp, space', m')) :
    StackBuilt arch rest entry phdrAddr phnum interpreterBase argv space m sp space' m' := by
  obtain ⟨x, hmap, hthen⟩ := Option.map_eq_some_iff.1 he
  obtain ⟨m₁, rfl, hfill⟩ := thenFill_ok hthen
  obtain ⟨hs₁, -, hbytes⟩ := mapStack_spec hb _ h hmap
  obtain ⟨pointers, envPtr, randomOff, hlen, objects, hobj, hst, hbot, halign, hlow, hs₂, hv⟩ :=
    fillStack_spec hs₁.fenced hargc (fun a ha => (hargs a ha).1) hfill
  clear he hthen hfill hmap
  have hall : ∀ x ∈ stackObjects sp pointers envPtr randomOff argv
      (auxv entry phdrAddr phnum interpreterBase randomOff (pointers.head?.getD 0)),
      arch.stackBase ≤ x.1 ∧ x.1 + x.2.length ≤ arch.stackTop ∧ At (space'.userByte m'.mem) x.1 x.2 := by
    intro x hx
    rw [← hobj, List.mem_reverse] at hx
    obtain ⟨h₁, h₂⟩ := hst.mem_le hx
    rw [hbot] at h₁
    exact ⟨Nat.le_trans hlow h₁, h₂, by rw [hv]; exact hst.at_overlayAll hx⟩
  refine ⟨halign, ⟨hlow, ?_⟩, ⟨pointers, envPtr, randomOff, hlen, ?_, hall, fun fuel hfuel => ?_⟩, fun w hw => ?_,
    hs₁.same.trans hs₂.same⟩
  · -- the array is not empty
    obtain ⟨-, htop, -⟩ := hall _ (List.mem_append_left _ (List.mem_append_left _ (List.mem_singleton_self _)))
    rw [length_words, length_stackWords] at htop
    dsimp only at htop
    omega
  · rw [← hobj, List.pairwise_reverse]
    exact hst.pairwise_noOverlap.imp NoOverlap.symm
  · exact stackBuilt_decoded hargc hargs hwords hlen hall hfuel
  · have hout : w < bottom arch.stackTop objects ∨ arch.stackTop ≤ w := by
      rw [hbot]
      exact hw.imp_left fun hw => Nat.lt_of_lt_of_le hw hlow
    rw [hv, hst.overlayAll_of_outside hout, hbytes w (pageOf_notMem_stack hw)]

end Fill

/-! ## A stack that fits -/

section Fits

/-- Stores to `[lo, hi)` are allowed. -/
def Writable (arch : Arch) (space : AddressSpace) (lo hi : Nat) : Prop :=
  hi ≤ arch.userAddressLimit ∧ ∀ w, lo ≤ w → w < hi → space.pageAllowed true (pageOf w) = true

theorem writeLoop_of_mapped (space : AddressSpace) (vaddr : Nat) : ∀ (fuel written : Nat) (bytes : List Byte) (s : Memory),
    bytes.length ≤ fuel →
    vaddr + written + bytes.length ≤ usizeMax →
    (∀ w, vaddr + written ≤ w → w < vaddr + written + bytes.length → (space.translate w).isSome = true) →
    ∃ s', space.writeLoop vaddr fuel written bytes s = (.ok (), s') := by
  intro fuel
  induction fuel with
  | zero =>
    intro written bytes s hlen _ _
    obtain rfl := List.eq_nil_of_length_eq_zero (Nat.le_zero.1 hlen)
    exact ⟨s, rfl⟩
  | succ fuel ih =>
    intro written bytes s hlen hfit hmap
    cases bytes with
    | nil => exact ⟨s, rfl⟩
    | cons b bytes =>
      have hadd : checkedAdd vaddr written = some (vaddr + written) := checkedAdd_eq (by omega)
      have hpos : 0 < (b :: bytes).length := Nat.succ_pos _
      obtain ⟨paddr, ht⟩ := Option.isSome_iff_exists.1 (hmap (vaddr + written) (Nat.le_refl _) (by omega))
      unfold AddressSpace.writeLoop
      rw [hadd]
      dsimp only
      rw [ht]
      dsimp only
      have hoff := Nat.mod_lt (vaddr + written) (show 0 < pageSize by decide)
      generalize hchunk : min (pageSize - (vaddr + written) % pageSize) (b :: bytes).length = chunk
      have hdrop : ((b :: bytes).drop chunk).length = (b :: bytes).length - chunk := List.length_drop
      refine ih _ _ _ ?_ ?_ fun w hw hw' => hmap w ?_ ?_ <;> omega

/-- **A `write`** to pages that allow it succeeds. -/
theorem write_enough {lo hi : Nat} (h : Writable arch space lo hi) (m : Machine) (vaddr : Nat) (bytes : List Byte)
    (hlo : lo ≤ vaddr) (hlt : vaddr < hi) (hhi : vaddr + bytes.length ≤ hi) :
    ∃ m', space.write arch m vaddr bytes = (.ok (), m') := by
  have hlimit := arch.userAddressLimit_le
  have hle := h.1
  have hvalid : space.validateRange arch vaddr bytes.length true = true := by
    unfold AddressSpace.validateRange
    split
    · exact decide_eq_true (by omega)
    · rename_i hne
      have hadd : checkedAdd vaddr bytes.length = some (vaddr + bytes.length) := checkedAdd_eq (by omega)
      rw [hadd]
      dsimp only
      rw [if_neg (by omega)]
      have hcount : pageOf vaddr + (pageOf (vaddr + bytes.length - 1) - pageOf vaddr) / pageSize * pageSize ≤
          vaddr + bytes.length - 1 := by
        unfold pageOf pageSize
        omega
      refine pagesAllowed_of_forall true _ (by omega) fun k hk => ?_
      have hk' := Nat.mul_le_mul_right pageSize hk
      -- the page holds the first byte of the range, or starts inside the range
      have hpage : pageOf (max vaddr (pageOf vaddr + k * pageSize)) = pageOf vaddr + k * pageSize := by
        unfold pageOf pageSize
        omega
      rw [← hpage]
      exact h.2 _ (by omega) (by omega)
  obtain ⟨s', hloop⟩ := writeLoop_of_mapped space vaddr bytes.length 0 bytes m.mem (Nat.le_refl _) (by omega)
    fun w hw hw' => by
      have hall := h.2 w (by omega) (by omega)
      unfold AddressSpace.pageAllowed at hall
      split at hall
      · cases hall
      · rename_i page hp
        rw [AddressSpace.translate, hp]
        rfl
  refine ⟨{ m with mem := s' }, ?_⟩
  rw [AddressSpace.write, if_pos hvalid, hloop]

/-- **The pages of the stack are mapped** when there are frames for them. -/
theorem mapStack_enough (hb : bound ≤ maxDescriptors) {flags : MappingFlags} : ∀ (vas : List Nat) {space : AddressSpace}
    {m : Machine} {own : List Nat}, Owns arch m.mem space own → Pool bound m.mem.frames (own ++ rest) other →
    (∀ va ∈ vas, PageOk arch lowerHalf va flags ∧ space.pages[va]? = none) → vas.Nodup →
    vas.length * (arch.format.top + 1) ≤ m.mem.frames.freeFrames →
    ∃ space' m', mapStack arch flags vas space m = some (.ok (), space', m') ∧
      (∀ va ∉ vas, space'.pages[va]? = space.pages[va]?) ∧
      ∀ va ∈ vas, (space'.pages[va]?).map VmPage.flags = some flags := by
  intro vas
  induction vas with
  | nil => exact fun _ _ _ _ _ => ⟨_, _, rfl, fun _ _ => rfl, List.forall_mem_nil _⟩
  | cons va vas ih =>
    intro space m own h hpool hfree hnd hcount
    obtain ⟨hok, hnone⟩ := hfree va List.mem_cons_self
    obtain ⟨hva, hnd⟩ := List.nodup_cons.1 hnd
    rw [List.length_cons, Nat.succ_mul] at hcount
    obtain ⟨p, m₁, he, hcount₁⟩ := mapZeroed_enough hb h hpool hok hnone (by omega)
    obtain ⟨own₁, h₁, hpool₁, -⟩ :=
      mapZeroed_kept (Nat.le_trans hb (by decide)) h hpool hok.user.2 hok.encodes he (fun h => by cases h)
    have hget : ∀ w : Nat, w ≠ va → (space.pages.insert va ⟨p, flags⟩)[w]? = space.pages[w]? := fun w hw => by
      rw [Std.TreeMap.getElem?_insert, if_neg fun hc => hw (Nat.compare_eq_eq.1 hc).symm]
    obtain ⟨space', m', he', hout, hin⟩ := ih h₁ hpool₁ (fun w hw => by
      refine ⟨(hfree w (List.mem_cons_of_mem _ hw)).1, ?_⟩
      rw [← (hfree w (List.mem_cons_of_mem _ hw)).2]
      exact hget w (by rintro rfl; exact hva hw)) hnd (by omega)
    refine ⟨space', m', ?_, fun w hw => ?_, fun w hw => ?_⟩
    · simp only [mapStack, he, he', Option.bind_eq_bind, Option.bind_some]
    · rw [List.mem_cons, not_or] at hw
      rw [hout w hw.2]
      exact hget w hw.1
    · rcases List.mem_cons.1 hw with rfl | hw
      · rw [hout w hva]
        simp
      · exact hin w hw

theorem pushArgs_enough {lo hi : Nat} (h : Writable arch space lo hi) : ∀ (args : List (List Byte)) (sp : Nat)
    (offsets : List Nat) (m : Machine), (∀ a ∈ args, a.length < 4096) → lo + 4112 * args.length ≤ sp → sp ≤ hi →
    ∃ sp' offsets' m', pushArgs arch space args sp offsets m = (.ok (sp', offsets'), m') ∧
      sp ≤ sp' + 4112 * args.length ∧ sp' ≤ sp ∧ offsets'.length = offsets.length + args.length := by
  have hlimit := Nat.le_trans h.1 arch.userAddressLimit_le
  unfold usizeMax at hlimit
  intro args
  induction args with
  | nil => exact fun _ _ _ _ _ _ => ⟨_, _, _, rfl, Nat.le_refl _, Nat.le_refl _, rfl⟩
  | cons bytes args ih =>
    intro sp offsets m hlen hlo hhi
    have hb := hlen bytes List.mem_cons_self
    rw [List.length_cons] at hlo
    obtain ⟨h₁, h₂, -⟩ := pushDown_spec sp (bytes.length + 1) (by omega) (by omega)
    rw [pushArgs]
    generalize pushDown sp (bytes.length + 1) = p at h₁ h₂ ⊢
    obtain ⟨m₁, hw₁⟩ := write_enough h m p bytes (by omega) (by omega) (by omega)
    obtain ⟨m₂, hw₂⟩ := write_enough h m₁ (p + bytes.length) [0] (by omega) (by omega)
      (by rw [List.length_singleton]; omega)
    rw [hw₁, attempt, hw₂, attempt]
    obtain ⟨sp', offsets', m', he, hle, hge, hlen'⟩ := ih p (offsets ++ [p]) m₂
      (fun a ha => hlen a (List.mem_cons_of_mem _ ha)) (by omega) (by omega)
    refine ⟨sp', offsets', m', he, by rw [List.length_cons]; omega, by omega, ?_⟩
    rw [hlen', List.length_append, List.length_singleton, List.length_cons]
    omega

section Setup

theorem Arch.stack_limits (arch : Arch) : arch.stackBase % pageSize = 0 ∧ arch.stackTop ≤ arch.userAddressLimit ∧
    arch.stackTop / pageSize < 256 * 512 ^ arch.format.top := by
  cases arch <;> decide

theorem Arch.length_stack (arch : Arch) : (stepBy arch.stackBase arch.stackTop).length = 2048 := by
  rw [stepBy, List.length_map, List.length_range]
  cases arch <;> decide

theorem pageOf_mem_stack {w : Nat} (hw : arch.stackBase ≤ w ∧ w < arch.stackTop) :
    pageOf w ∈ stepBy arch.stackBase arch.stackTop := by
  have hbase : arch.stackBase % 4096 = 0 ∧ arch.stackTop % 4096 = 0 := by cases arch <;> decide
  refine List.mem_map.2 ⟨(pageOf w - arch.stackBase) / pageSize, List.mem_range.2 ?_, ?_⟩
  · unfold pageOf pageSize at *
    omega
  · unfold pageOf pageSize at *
    omega

variable {argv : List String} (entry phdrAddr phnum interpreterBase : Nat)

theorem fillStack_enough (h : Writable arch space arch.stackBase arch.stackTop) (hargc : argv.length ≤ 256)
    (hargs : ∀ a ∈ argv, (asBytes a).length < 4096) (m : Machine) :
    ∃ sp m', fillStack arch space m entry phdrAddr phnum interpreterBase argv = (.ok sp, m') := by
  obtain ⟨htop, htop'⟩ := arch.stackTop_bounds
  have henv := length_env0
  have hbase : arch.stackBase + 8388608 = arch.stackTop := by
    have : stackSize = 8388608 := by decide
    rw [Arch.stackBase, ← this]
    omega
  obtain ⟨hr₁, hr₂, -⟩ := pushDown_spec arch.stackTop 16 (by omega) htop'
  simp only [fillStack]
  generalize pushDown arch.stackTop 16 = randomOff at hr₁ hr₂ ⊢
  obtain ⟨hn₁, hn₂, -⟩ := pushDown_spec randomOff env0.length (by omega) (by omega)
  obtain ⟨m₁, hw₁⟩ := write_enough h m randomOff (List.replicate 16 0x42) (by omega) (by omega)
    (by rw [List.length_replicate]; omega)
  rw [hw₁, attempt]
  generalize pushDown randomOff env0.length = envPtr at hn₁ hn₂ ⊢
  obtain ⟨m₂, hw₂⟩ := write_enough h m₁ envPtr env0 (by omega) (by omega) (by omega)
  rw [hw₂, attempt]
  have hlen : (argv.reverse.map asBytes).length = argv.length := by simp
  obtain ⟨sp, pushed, m₃, hp, hle, hge, hcount⟩ := pushArgs_enough h (argv.reverse.map asBytes) envPtr [] m₂
    (fun a ha => by
      obtain ⟨b, hb, rfl⟩ := List.mem_map.1 ha
      exact hargs b (List.mem_reverse.1 hb)) (by rw [hlen]; omega) (by omega)
  rw [hlen] at hle hcount
  rw [hp, andThen]
  simp only [writeArray]
  generalize hwords : stackWords pushed.reverse envPtr (auxv entry phdrAddr phnum interpreterBase randomOff
    (pushed.reverse.head?.getD 0)) = words
  have hwlen : words.length = argv.length + 32 := by
    rw [← hwords, length_stackWords, List.length_reverse, hcount, List.length_nil, Nat.zero_add]
  obtain ⟨ha₁, ha₂, -⟩ := pushDown_spec sp (words.length * 8) (by omega) (by omega)
  generalize pushDown sp (words.length * 8) = base at ha₁ ha₂ ⊢
  obtain ⟨m₄, hw₄⟩ := write_enough h m₃ base (words.flatMap (leBytes 8)) (by omega) (by omega)
    (by rw [length_words]; omega)
  rw [hw₄, attempt]
  exact ⟨base, m₄, rfl⟩

theorem thenFill_of_ok {α : Type} {fill : AddressSpace → Machine → Except String α × Machine} {r : Except String α}
    (h : fill space m = (r, m')) : thenFill fill (.ok (), space, m) = (r, space, m') := by
  rw [thenFill, h]

/-- **A stack is set up** in a space that has no pages there, when there are frames for it. -/
theorem setupUserStack_enough (hb : bound ≤ maxDescriptors) {own : List Nat} (h : Owns arch m.mem space own)
    (hpool : Pool bound m.mem.frames (own ++ rest) other)
    (hnone : ∀ va, arch.stackBase ≤ va → va < arch.stackTop → space.pages[va]? = none)
    (hfree : 2048 * (arch.format.top + 1) ≤ m.mem.frames.freeFrames) (hargc : argv.length ≤ 256)
    (hargs : ∀ a ∈ argv, (asBytes a).length < 4096) :
    ∃ sp space' m', setupUserStack arch space m entry phdrAddr phnum interpreterBase argv =
      some (.ok sp, space', m') := by
  have hlimit := arch.stack_limits
  have hlength := arch.length_stack
  have hpages : ∀ va ∈ stepBy arch.stackBase arch.stackTop, PageOk arch lowerHalf va ⟨true, true, false, true⟩ ∧
      space.pages[va]? = none := by
    intro va hva
    obtain ⟨h₁, h₂, h₃⟩ := mem_stepBy hva
    have hlow : Low arch.format (va / pageSize) :=
      Nat.lt_of_le_of_lt (Nat.div_le_div_right (Nat.le_of_lt h₂)) hlimit.2.2
    exact ⟨⟨⟨h₃ hlimit.1, hlow.own⟩, Nat.lt_of_lt_of_le h₂ hlimit.2.1, rfl, arch.lawful.encodes_accessible _ rfl⟩, hnone va h₁ h₂⟩
  obtain ⟨space', m₁, hmap, -, hin⟩ := mapStack_enough hb _ h hpool hpages
    (List.Nodup.of_map _ (stepBy_nodup arch.stackBase arch.stackTop)) (by rw [hlength]; exact hfree)
  have hw : Writable arch space' arch.stackBase arch.stackTop := by
    refine ⟨hlimit.2.1, fun w hlo hhi => ?_⟩
    obtain ⟨page, hp, hflags⟩ := Option.map_eq_some_iff.1 (hin (pageOf w) (pageOf_mem_stack ⟨hlo, hhi⟩))
    rw [AddressSpace.pageAllowed, hp]
    dsimp only
    rw [hflags]
    rfl
  obtain ⟨sp, m', hfill⟩ := fillStack_enough entry phdrAddr phnum interpreterBase hw hargc hargs m₁
  refine ⟨sp, space', m', ?_⟩
  rw [setupUserStack, hmap, Option.map_some, thenFill_of_ok hfill]

end Setup

end Fits


end Proofs

/-- A machine with 8191 frames. -/
def roomyMachine : Machine := ⟨freshMemory 0x2000000, 0⟩

/-- A program with two arguments on riscv64. -/
theorem setupUserStack_decodes_two : ∃ space m sp space' m',
    AddressSpace.empty roomyMachine = some (.ok space, m) ∧
      setupUserStack .riscv64 space m 0x400000 0x400040 3 0 ["cat", "a b"] = some (.ok sp, space', m') ∧
      StackBuilt .riscv64 [] 0x400000 0x400040 3 0 ["cat", "a b"] space m sp space' m' := by
  have hsome : (FrameAllocator.new.addRegion 0x1000 0x2000000).isSome = true := by decide +kernel
  have hregion : FrameAllocator.new.addRegion 0x1000 0x2000000 = some roomyMachine.mem.frames := by
    obtain ⟨a, ha⟩ := Option.isSome_iff_exists.1 hsome
    rw [roomyMachine, freshMemory, ha, Option.getD_some]
  have hpool : Pool maxDescriptors roomyMachine.mem.frames [] [] :=
    ⟨(Reach.add .new (by decide) (by decide) hregion).inv, by decide +kernel⟩
  have hfree : roomyMachine.mem.frames.freeFrames = 8191 := by decide +kernel
  obtain ⟨root, m, hempty, hone⟩ := empty_enough hpool (by rw [hfree]; decide)
  obtain ⟨_, hroot, htree, hpool₁, -⟩ := empty_spec .riscv64 (by decide) hpool hempty nofun
  cases hroot
  have hleft : 2048 * (Arch.riscv64.format.top + 1) ≤ m.mem.frames.freeFrames := by
    have htop : Arch.riscv64.format.top = 2 := rfl
    rw [hfree] at hone
    omega
  have hfenced := empty_fenced (by decide) hpool (show UpperEmpty .riscv64 roomyMachine from fun _ _ _ => rfl) hempty
  have howns : Owns .riscv64 m.mem ⟨root, true, ∅⟩ [root] :=
    ⟨fun _ => none, [root], [], rfl, htree, ⟨fun _ => ⟨nofun, nofun⟩, nofun⟩, ⟨fun _ => by simp, fun h => by simp at h⟩⟩
  obtain ⟨sp, space', m', he⟩ := setupUserStack_enough 0x400000 0x400040 3 0 (Nat.le_refl _) howns hpool₁
    (fun _ _ _ => by simp) hleft (show ["cat", "a b"].length ≤ 256 by decide) (by decide +kernel)
  refine ⟨_, m, sp, space', m', hempty, he, ?_⟩
  rcases hfenced.2.2 with ⟨_, hroot, hf⟩ | ⟨⟨e, hr⟩, -⟩
  · cases hroot
    exact setupUserStack_decodes (by decide) hf (by decide) (by decide +kernel) (by decide) he
  · cases hr

end Koros.Mm
