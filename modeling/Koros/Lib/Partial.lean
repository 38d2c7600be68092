import Koros.Lib.Bytes

/-!
# Bytes at some addresses

A partial memory gives a byte for some addresses. `overlay` writes a list of bytes over it, `At` says that a list of bytes
is there, `readLe` reads a little-endian number.

- `overlay_cons`, `overlay_append`: a write is a sequence of smaller writes;
- `At.mono`: what is there stays there under writes elsewhere;
- `readLe_of_at`, `readLe_words`: numbers are read back.
-/
set_option autoImplicit false

namespace Koros.Lib

abbrev Partial := Nat → Option Byte

/-- The memory with the bytes written from `a` on. -/
def overlay (v : Partial) (a : Nat) (bytes : List Byte) : Partial := fun w =>
  if a ≤ w ∧ w < a + bytes.length then bytes[w - a]? else v w

/-- The bytes are there from `a` on. -/
def At (v : Partial) (a : Nat) (bytes : List Byte) : Prop := ∀ i b, bytes[i]? = some b → v (a + i) = some b

/-- The `n` low bytes of a number, low byte first. -/
def leBytes (n x : Nat) : List Byte := (List.range n).map (toLe x)

/-- The little-endian number in the `n` bytes from `a` on. -/
def readLe (v : Partial) : (n a : Nat) → Option Nat
  | 0, _ => some 0
  | n + 1, a => do
    let b ← v a
    let rest ← readLe v n (a + 1)
    some (b.toNat + 256 * rest)

section

variable {v v' : Partial} {a w n x : Nat} {bytes xs ys : List Byte}

theorem overlay_of_outside (h : w < a ∨ a + bytes.length ≤ w) : overlay v a bytes w = v w := if_neg (by omega)

theorem overlay_of_inside (h₁ : a ≤ w) (h₂ : w < a + bytes.length) : overlay v a bytes w = bytes[w - a]? :=
  if_pos ⟨h₁, h₂⟩

@[simp] theorem overlay_nil : overlay v a [] = v := by
  funext w
  exact overlay_of_outside (by simp; omega)

theorem overlay_append : overlay v a (xs ++ ys) = overlay (overlay v a xs) (a + xs.length) ys := by
  funext w
  simp only [overlay, List.length_append]
  by_cases h₁ : a ≤ w
  · by_cases h₂ : w < a + xs.length
    · rw [if_pos (by omega), if_neg (by omega), if_pos (by omega), List.getElem?_append_left (by omega)]
    · by_cases h₃ : w < a + xs.length + ys.length
      · rw [if_pos (by omega), if_pos (by omega), List.getElem?_append_right (by omega), Nat.sub_sub]
      · rw [if_neg (by omega), if_neg (by omega), if_neg (by omega)]
  · rw [if_neg (by omega), if_neg (by omega), if_neg (by omega)]

theorem overlay_singleton (b : Byte) : overlay v a [b] = Function.update v a (some b) := by
  funext w
  by_cases h : w = a
  · subst h
    rw [Function.update_self, overlay_of_inside (Nat.le_refl _) (by simp), Nat.sub_self]
    rfl
  · rw [Function.update_of_ne h, overlay_of_outside (by simp; omega)]

theorem overlay_cons (b : Byte) : overlay v a (b :: bytes) = overlay (Function.update v a (some b)) (a + 1) bytes := by
  rw [← overlay_singleton, ← List.singleton_append, overlay_append, List.length_singleton]

theorem at_overlay : At (overlay v a bytes) a bytes := by
  intro i b hb
  have hi : i < bytes.length := (List.getElem?_eq_some_iff.1 hb).1
  rw [overlay_of_inside (by omega) (by omega), Nat.add_sub_cancel_left, hb]

/-- What is there stays there where the memory is the same. -/
theorem At.mono (h : At v a bytes) (hv : ∀ w, a ≤ w → w < a + bytes.length → v' w = v w) : At v' a bytes := by
  intro i b hb
  have hi : i < bytes.length := (List.getElem?_eq_some_iff.1 hb).1
  rw [hv _ (by omega) (by omega)]
  exact h i b hb

theorem at_append : At v a (xs ++ ys) ↔ At v a xs ∧ At v (a + xs.length) ys := by
  constructor
  · intro h
    refine ⟨fun i b hb => ?_, fun i b hb => ?_⟩
    · refine h i b ?_
      rw [List.getElem?_append_left (List.getElem?_eq_some_iff.1 hb).1, hb]
    · rw [Nat.add_assoc]
      refine h _ b ?_
      rw [List.getElem?_append_right (by omega), Nat.add_sub_cancel_left, hb]
  · rintro ⟨hx, hy⟩ i b hb
    by_cases hi : i < xs.length
    · exact hx i b (by rwa [List.getElem?_append_left hi] at hb)
    · rw [List.getElem?_append_right (by omega)] at hb
      have h := hy _ b hb
      rwa [show a + xs.length + (i - xs.length) = a + i by omega] at h

@[simp] theorem length_leBytes : (leBytes n x).length = n := by simp [leBytes]

theorem leBytes_succ : leBytes (n + 1) x = BitVec.ofNat 8 x :: leBytes n (x / 256) := by
  rw [leBytes, leBytes, List.range_succ_eq_map, List.map_cons, List.map_map]
  congr 1
  · simp [toLe]
  · refine List.map_congr_left fun k _ => ?_
    simp only [Function.comp_apply, toLe, Nat.pow_succ', Nat.div_div_eq_div_mul]

/-- A number that is there is read, modulo its width. -/
theorem readLe_of_at (h : At v a (leBytes n x)) : readLe v n a = some (x % 256 ^ n) := by
  induction n generalizing a x with
  | zero => simp [readLe, Nat.mod_one]
  | succ n ih =>
    rw [leBytes_succ] at h
    have hb : v a = some (BitVec.ofNat 8 x) := h 0 _ rfl
    have hrest : At v (a + 1) (leBytes n (x / 256)) := fun i b hi => by
      rw [Nat.add_assoc, Nat.add_comm 1 i]
      exact h (i + 1) b hi
    rw [readLe, hb, ih hrest]
    simp only [Option.bind_eq_bind, Option.bind_some, BitVec.toNat_ofNat, Option.some.injEq]
    rw [Nat.pow_succ' (n := n), Nat.mod_mul]

/-- The words of an array that is there. -/
theorem readLe_words {words : List Nat} (h : At v a (words.flatMap (leBytes n))) {i : Nat} (hi : words[i]? = some x) :
    readLe v n (a + n * i) = some (x % 256 ^ n) := by
  induction words generalizing a i with
  | nil => cases hi
  | cons y words ih =>
    rw [List.flatMap_cons, at_append, length_leBytes] at h
    cases i with
    | zero =>
      cases hi
      exact readLe_of_at h.1
    | succ i =>
      have := ih h.2 hi
      rwa [show a + n + n * i = a + n * (i + 1) by ring] at this

theorem length_words (words : List Nat) : (words.flatMap (leBytes n)).length = n * words.length := by
  induction words with
  | nil => rfl
  | cons y words ih =>
    rw [List.flatMap_cons, List.length_append, length_leBytes, ih, List.length_cons]
    ring

end

/-! ## Objects below each other -/

/-- The memory with all objects written. -/
def overlayAll (v : Partial) : List (Nat × List Byte) → Partial
  | [] => v
  | x :: objects => overlayAll (overlay v x.1 x.2) objects

/-- Each object ends below the one before it, the first one below `top`. -/
def Stacked : (top : Nat) → List (Nat × List Byte) → Prop
  | _, [] => True
  | top, x :: objects => x.1 + x.2.length ≤ top ∧ Stacked x.1 objects

/-- Where the last object starts. -/
def bottom : (top : Nat) → List (Nat × List Byte) → Nat
  | top, [] => top
  | _, x :: objects => bottom x.1 objects

/-- The objects have no byte in common. -/
def NoOverlap (x y : Nat × List Byte) : Prop := x.1 + x.2.length ≤ y.1 ∨ y.1 + y.2.length ≤ x.1

section

variable {v : Partial} {w : Nat} {x : Nat × List Byte}

theorem overlayAll_append : ∀ (xs ys : List (Nat × List Byte)) (v : Partial),
    overlayAll v (xs ++ ys) = overlayAll (overlayAll v xs) ys
  | [], _, _ => rfl
  | x :: xs, ys, v => overlayAll_append xs ys (overlay v x.1 x.2)

theorem bottom_append : ∀ (xs ys : List (Nat × List Byte)) (top : Nat), bottom top (xs ++ ys) = bottom (bottom top xs) ys
  | [], _, _ => rfl
  | x :: xs, ys, _ => bottom_append xs ys x.1

theorem stacked_append : ∀ (xs ys : List (Nat × List Byte)) (top : Nat),
    Stacked top (xs ++ ys) ↔ Stacked top xs ∧ Stacked (bottom top xs) ys
  | [], _, _ => by simp [Stacked, bottom]
  | x :: xs, ys, top => by
    rw [List.cons_append, Stacked, Stacked, bottom, stacked_append xs ys x.1, and_assoc]

theorem Stacked.bottom_le : ∀ {top : Nat} {objects : List (Nat × List Byte)}, Stacked top objects →
    bottom top objects ≤ top
  | _, [], _ => Nat.le_refl _
  | top, x :: objects, h => by
    have h₁ := h.1
    have h₂ : bottom x.1 objects ≤ x.1 := bottom_le h.2
    rw [bottom]
    omega

theorem Stacked.mem_le : ∀ {top : Nat} {objects : List (Nat × List Byte)}, Stacked top objects → x ∈ objects →
    bottom top objects ≤ x.1 ∧ x.1 + x.2.length ≤ top
  | _, y :: objects, h, hx => by
    rcases List.mem_cons.1 hx with rfl | hx
    · exact ⟨h.2.bottom_le, h.1⟩
    · obtain ⟨h₁, h₂⟩ := h.2.mem_le hx
      have := h.1
      exact ⟨h₁, by omega⟩

/-- Below the last object and above the first nothing changes. -/
theorem Stacked.overlayAll_of_outside : ∀ {top : Nat} {objects : List (Nat × List Byte)} {v : Partial},
    Stacked top objects → w < bottom top objects ∨ top ≤ w → overlayAll v objects w = v w
  | _, [], _, _, _ => rfl
  | top, x :: objects, v, h, hw => by
    have hle := h.2.bottom_le
    have h₁ := h.1
    have hlow : w < bottom x.1 objects ∨ x.1 ≤ w := hw.imp_right fun h₂ => by omega
    rw [overlayAll, h.2.overlayAll_of_outside hlow, overlay_of_outside]
    rcases hw with hw | hw
    · exact Or.inl (Nat.lt_of_lt_of_le hw hle)
    · exact Or.inr (by omega)

/-- Every object is there in the end. -/
theorem Stacked.at_overlayAll : ∀ {top : Nat} {objects : List (Nat × List Byte)} {v : Partial}, Stacked top objects →
    x ∈ objects → At (overlayAll v objects) x.1 x.2
  | top, y :: objects, v, h, hx => by
    rw [overlayAll]
    rcases List.mem_cons.1 hx with rfl | hx
    · exact at_overlay.mono fun w hw _ => h.2.overlayAll_of_outside (Or.inr hw)
    · exact h.2.at_overlayAll hx

theorem NoOverlap.symm {x y : Nat × List Byte} (h : NoOverlap x y) : NoOverlap y x := Or.symm h

theorem Stacked.pairwise_noOverlap : ∀ {top : Nat} {objects : List (Nat × List Byte)}, Stacked top objects →
    objects.Pairwise NoOverlap
  | _, [], _ => List.Pairwise.nil
  | _, _ :: _, h => List.Pairwise.cons (fun _ hy => Or.inr (h.2.mem_le hy).2) h.2.pairwise_noOverlap

end

/-! ## Strings and arrays that end with a zero -/

/-- The bytes before the next zero byte. -/
def readString (v : Partial) : (fuel a : Nat) → Option (List Byte)
  | 0, _ => none
  | fuel + 1, a => do
    let b ← v a
    if b = 0 then some []
    else
      let rest ← readString v fuel (a + 1)
      some (b :: rest)

/-- The words before the next zero word. -/
def readPointers (v : Partial) : (fuel a : Nat) → Option (List Nat)
  | 0, _ => none
  | fuel + 1, a => do
    let x ← readLe v 8 a
    if x = 0 then some []
    else
      let rest ← readPointers v fuel (a + 8)
      some (x :: rest)

/-- The pairs of words before the next pair whose first word is zero. -/
def readPairs (v : Partial) : (fuel a : Nat) → Option (List (Nat × Nat))
  | 0, _ => none
  | fuel + 1, a => do
    let key ← readLe v 8 a
    let value ← readLe v 8 (a + 8)
    if key = 0 then some []
    else
      let rest ← readPairs v fuel (a + 16)
      some ((key, value) :: rest)

section

variable {v : Partial}

theorem readString_of_at : ∀ {bytes : List Byte} {a fuel : Nat}, bytes.length < fuel → 0 ∉ bytes →
    At v a (bytes ++ [0]) → readString v fuel a = some bytes
  | [], a, fuel + 1, _, _, h => by
    have hv : v a = some 0 := h 0 _ rfl
    rw [readString, hv]
    rfl
  | b :: bytes, a, fuel + 1, hfuel, hno, h => by
    have hv : v a = some b := h 0 _ rfl
    have hsplit : At v a ([b] ++ (bytes ++ [0])) := h
    have hrest : At v (a + 1) (bytes ++ [0]) := (at_append.1 hsplit).2
    have hb : b ≠ 0 := fun hb => hno (hb ▸ List.mem_cons_self)
    rw [readString, hv, Option.bind_eq_bind, Option.bind_some, if_neg hb,
      readString_of_at (Nat.lt_of_succ_lt_succ hfuel) (fun hm => hno (List.mem_cons_of_mem _ hm)) hrest]
    rfl

/-- The strings of objects that are there. -/
theorem readStrings_of_at {fuel : Nat} : ∀ {objects : List (Nat × List Byte)} {strings : List (List Byte)},
    objects.map Prod.snd = strings.map (· ++ [0]) → (∀ x ∈ objects, At v x.1 x.2) →
    (∀ s ∈ strings, s.length < fuel ∧ 0 ∉ s) → (objects.map Prod.fst).mapM (readString v fuel) = some strings
  | [], [], _, _, _ => rfl
  | x :: objects, s :: strings, hsnd, hat, hstr => by
    rw [List.map_cons, List.map_cons, List.cons.injEq] at hsnd
    obtain ⟨hlen, hno⟩ := hstr s List.mem_cons_self
    have hx : readString v fuel x.1 = some s := readString_of_at hlen hno (hsnd.1 ▸ hat x List.mem_cons_self)
    have hrest := readStrings_of_at hsnd.2 (fun y hy => hat y (List.mem_cons_of_mem _ hy))
      fun t ht => hstr t (List.mem_cons_of_mem _ ht)
    rw [List.map_cons, List.mapM_cons, hx, hrest]
    rfl

theorem readPointers_of_at : ∀ {words : List Nat} {a fuel : Nat}, words.length < fuel →
    (∀ x ∈ words, x ≠ 0 ∧ x < 256 ^ 8) → At v a ((words ++ [0]).flatMap (leBytes 8)) →
    readPointers v fuel a = some words
  | [], a, fuel + 1, _, _, h => by
    have hx : readLe v 8 a = some (0 % 256 ^ 8) := readLe_words (i := 0) h rfl
    rw [readPointers, hx]
    rfl
  | x :: words, a, fuel + 1, hfuel, hall, h => by
    have hx : readLe v 8 a = some (x % 256 ^ 8) := readLe_words (i := 0) h rfl
    obtain ⟨hne, hlt⟩ := hall x List.mem_cons_self
    rw [Nat.mod_eq_of_lt hlt] at hx
    rw [List.cons_append, List.flatMap_cons, at_append, length_leBytes] at h
    rw [readPointers, hx, Option.bind_eq_bind, Option.bind_some, if_neg hne,
      readPointers_of_at (Nat.lt_of_succ_lt_succ hfuel) (fun y hy => hall y (List.mem_cons_of_mem _ hy)) h.2]
    rfl

theorem readPairs_of_at : ∀ {pairs : List (Nat × Nat)} {a fuel last : Nat}, pairs.length < fuel →
    (∀ x ∈ pairs, x.1 ≠ 0 ∧ x.1 < 256 ^ 8 ∧ x.2 < 256 ^ 8) →
    At v a ((pairs.flatMap (fun x => [x.1, x.2]) ++ [0, last]).flatMap (leBytes 8)) → readPairs v fuel a = some pairs
  | [], a, fuel + 1, last, _, _, h => by
    have hx : readLe v 8 a = some (0 % 256 ^ 8) := readLe_words (i := 0) h rfl
    have hy : readLe v 8 (a + 8) = some (last % 256 ^ 8) := readLe_words (i := 1) h rfl
    rw [readPairs, hx, hy]
    rfl
  | x :: pairs, a, fuel + 1, last, hfuel, hall, h => by
    have hx : readLe v 8 a = some (x.1 % 256 ^ 8) := readLe_words (i := 0) h rfl
    have hy : readLe v 8 (a + 8) = some (x.2 % 256 ^ 8) := readLe_words (i := 1) h rfl
    obtain ⟨hne, hlt₁, hlt₂⟩ := hall x List.mem_cons_self
    rw [Nat.mod_eq_of_lt hlt₁] at hx
    rw [Nat.mod_eq_of_lt hlt₂] at hy
    have hrest : At v (a + 16) ((pairs.flatMap (fun x => [x.1, x.2]) ++ [0, last]).flatMap (leBytes 8)) := by
      rw [List.flatMap_cons, List.append_assoc, List.flatMap_append, at_append] at h
      have hlen : ([x.1, x.2].flatMap (leBytes 8)).length = 16 := by rw [length_words]; rfl
      rw [hlen] at h
      exact h.2
    rw [readPairs, hx, hy]
    simp only [Option.bind_eq_bind, Option.bind_some, if_neg hne,
      readPairs_of_at (Nat.lt_of_succ_lt_succ hfuel) (fun y hy => hall y (List.mem_cons_of_mem _ hy)) hrest]

end

end Koros.Lib
