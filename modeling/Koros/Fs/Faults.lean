import Koros.Fs.Coherence

/-!
# The block cache over a device that fails

Every request of the device may fail, so an operation may stop between two writes, between the writes and the barrier,
or in the middle of an eviction. `Tracks c g` says that the cache still stands for the array of blocks `g`: the access
order lists the cached blocks once each, every cached copy is the block of `g`, and a block that is not dirty is the
block of `g` on both layers of the device. A failing operation keeps it as a successful one does
(`writeAll_tracks`, `evictFrom_tracks`, `flushRange_tracks`, `sync_tracks`), and over a whole run `g` is the array of
the accepted writes (`run_tracks`, `cache_under_failure`).
-/
set_option autoImplicit false

namespace Koros.Fs

/-! ## A request that may fail -/

namespace Device

variable {α : Type}

/-- A request either fails and leaves both layers alone, or is carried out. -/
theorem request_cases (d : Device) (f : Device → Device) (r : α) :
    (∃ e, d.request f r = (.error e, d.served)) ∨ d.request f r = (.ok r, f d.served) := by
  unfold request
  cases d.faults d.requests with
  | none => exact .inr rfl
  | some e => exact .inl ⟨e, rfl⟩

theorem readBlock_cases (d : Device) (n : Nat) :
    (∃ e, d.readBlock n = (.error e, d.served)) ∨ d.readBlock n = (.ok (d.content n), d.served) :=
  d.request_cases id (d.content n)

end Device

namespace BlockCache

/-! ## The invariant -/

/-- Block `id` is cached and marked dirty. -/
def Dirty (c : BlockCache) (id : Nat) : Prop := ∃ e, c.cache[id]? = some e ∧ e.dirty = true

/-- Both layers of the device hold the block of `g`. -/
def Settled (c : BlockCache) (g : Nat → Block) (id : Nat) : Prop :=
  c.device.content id = g id ∧ c.device.durable id = g id

/-- The cache stands for the blocks `g`. -/
structure Tracks (c : BlockCache) (g : Nat → Block) : Prop where
  nodup : c.accessOrder.Nodup
  order : ∀ id, id ∈ c.accessOrder ↔ (c.cache[id]?).isSome
  entry : ∀ {id : Nat} {e : CachedBlock}, c.cache[id]? = some e → e.blockId = id ∧ e.data = g id
  settled : ∀ {id : Nat}, ¬ c.Dirty id → c.Settled g id

variable {c : BlockCache} {g : Nat → Block}

theorem new_tracks {d : Device} (h : d.pending = []) (n : Nat) : (new d n).Tracks d.durable where
  nodup := .nil
  order := fun id => by simp [new]
  entry := fun he => by simp [new] at he
  settled := fun {id} _ => ⟨by simp [new, Device.content, h], rfl⟩

theorem not_dirty_of_none {id : Nat} (h : c.cache[id]? = none) : ¬ c.Dirty id := by
  rintro ⟨e, he, -⟩
  rw [h] at he
  cases he

theorem not_dirty_of_clean {id : Nat} {e : CachedBlock} (h : c.cache[id]? = some e) (hd : e.dirty = false) :
    ¬ c.Dirty id := by
  rintro ⟨e', he, hd'⟩
  rw [h] at he
  cases he
  rw [hd] at hd'
  cases hd'

/-- A device may change at dirty blocks only. -/
theorem Tracks.device {d : Device} (h : c.Tracks g)
    (hd : ∀ id, ¬ c.Dirty id → d.content id = g id ∧ d.durable id = g id) : Tracks { c with device := d } g where
  nodup := h.nodup
  order := h.order
  entry := h.entry
  settled := fun hid => hd _ hid

/-! ## Moving dirty blocks to the device -/

/-- What a step that only talks to the device leaves alone. -/
structure SameCache (c b : BlockCache) : Prop where
  cache : b.cache = c.cache
  order : b.accessOrder = c.accessOrder
  maxBlocks : b.maxBlocks = c.maxBlocks
  blockSize : b.device.blockSize = c.device.blockSize

theorem SameCache.refl (c : BlockCache) : SameCache c c := ⟨rfl, rfl, rfl, rfl⟩

theorem SameCache.trans {a b : BlockCache} (h₁ : SameCache c a) (h₂ : SameCache a b) : SameCache c b :=
  ⟨h₂.cache.trans h₁.cache, h₂.order.trans h₁.order, h₂.maxBlocks.trans h₁.maxBlocks, h₂.blockSize.trans h₁.blockSize⟩

/-- Writing a dirty block may fail; where it succeeds the volatile layer holds the block. -/
theorem writeDirty_tracks (h : c.Tracks g) (id : Nat) :
    (c.writeDirty id).2.Tracks g ∧ SameCache c (c.writeDirty id).2 ∧
    (∀ j, c.device.content j = g j → (c.writeDirty id).2.device.content j = g j) ∧
    ((c.writeDirty id).1 = .ok () → (c.writeDirty id).2.device.content id = g id) := by
  unfold writeDirty
  cases hc : c.cache[id]? with
  | none => exact ⟨h, .refl c, fun _ hj => hj, fun _ => (h.settled (not_dirty_of_none hc)).1⟩
  | some e =>
    obtain ⟨hid, hdata⟩ := h.entry hc
    cases hd : e.dirty with
    | false =>
      simp only [hd, Bool.false_eq_true, if_false]
      exact ⟨h, .refl c, fun _ hj => hj, fun _ => (h.settled (not_dirty_of_clean hc hd)).1⟩
    | true =>
      simp only [hd, if_true, Device.writeBlock]
      rcases Device.request_cases c.device (Device.put e.blockId e.data) () with ⟨err, hr⟩ | hr
      · rw [hr]
        exact ⟨h.device fun j hj => h.settled hj, ⟨rfl, rfl, rfl, rfl⟩, fun _ hj => hj, fun hok => by cases hok⟩
      · have hput := Device.content_put e.blockId e.data c.device.served
        have hat : (Device.put e.blockId e.data c.device.served).content id = g id := by
          rw [hput, if_pos hid.symm, hdata]
        rw [hr]
        refine ⟨h.device fun j hj => ⟨?_, (h.settled hj).2⟩, ⟨rfl, rfl, rfl, rfl⟩, fun j hj => ?_, fun _ => hat⟩
        · have hne : j ≠ e.blockId := by
            rintro rfl
            exact hj ⟨e, by rw [hid]; exact hc, hd⟩
          rw [hput, if_neg hne]
          exact (h.settled hj).1
        · show (Device.put e.blockId e.data c.device.served).content j = g j
          by_cases hji : j = id
          · rw [hji]; exact hat
          · rw [hput, if_neg (by rw [hid]; exact hji)]
            exact hj

theorem writeAll_tracks (ids : List Nat) : ∀ {c : BlockCache}, c.Tracks g →
    (writeAll ids c).2.Tracks g ∧ SameCache c (writeAll ids c).2 ∧
    (∀ j, c.device.content j = g j → (writeAll ids c).2.device.content j = g j) ∧
    ((writeAll ids c).1 = .ok () → ∀ id ∈ ids, (writeAll ids c).2.device.content id = g id) := by
  induction ids with
  | nil =>
    intro c h
    exact ⟨h, .refl c, fun _ hj => hj, fun _ id hid => absurd hid List.not_mem_nil⟩
  | cons id ids ih =>
    intro c h
    obtain ⟨ht, hs, hk, hw⟩ := writeDirty_tracks h id
    unfold writeAll
    rcases hr : c.writeDirty id with ⟨r, c₁⟩
    rw [hr] at ht hs hk hw
    cases r with
    | error e => exact ⟨ht, hs, hk, fun hok => by cases hok⟩
    | ok u =>
      obtain ⟨ht', hs', hk', hw'⟩ := ih ht
      refine ⟨ht', hs.trans hs', fun j hj => hk' j (hk j hj), fun hok j hj => ?_⟩
      rcases List.mem_cons.1 hj with rfl | hj
      · exact hk' _ (hw rfl)
      · exact hw' hok j hj

/-- The barrier may fail; where it succeeds the volatile layer becomes durable. -/
theorem flushDevice_tracks (h : c.Tracks g) :
    c.flushDevice.2.Tracks g ∧ SameCache c c.flushDevice.2 ∧
    (c.flushDevice.1 = .ok () → ∀ j, c.device.content j = g j → c.flushDevice.2.Settled g j) := by
  unfold flushDevice Device.flush
  rcases Device.request_cases c.device Device.persist () with ⟨err, hr⟩ | hr
  · rw [hr]
    exact ⟨h.device fun j hj => h.settled hj, ⟨rfl, rfl, rfl, rfl⟩, fun hok => by cases hok⟩
  · rw [hr]
    refine ⟨h.device fun j hj => ?_, ⟨rfl, rfl, rfl, rfl⟩, fun _ j hj => ⟨hj, hj⟩⟩
    have hset := h.settled hj
    exact ⟨hset.1, hset.1⟩

/-! ## Clearing dirty flags -/

/-- The flags of blocks that both layers hold may be cleared. -/
theorem Tracks.clean {m : Std.TreeMap Nat CachedBlock} (h : c.Tracks g)
    (hm : ∀ id, m[id]? = c.cache[id]? ∨
      (c.Settled g id ∧ m[id]? = (c.cache[id]?).map fun e => { e with dirty := false })) :
    Tracks { c with cache := m } g where
  nodup := h.nodup
  order := fun id => by
    rw [h.order id]
    rcases hm id with h' | ⟨-, h'⟩ <;> simp [h']
  entry := fun {id e} he => by
    have he' : m[id]? = some e := he
    rcases hm id with h' | ⟨-, h'⟩
    · rw [h'] at he'
      exact h.entry he'
    · rw [h', Option.map_eq_some_iff] at he'
      obtain ⟨e₀, he₀, rfl⟩ := he'
      have h₀ := h.entry he₀
      exact h₀
  settled := fun {id} hid => by
    rcases hm id with h' | ⟨hset, -⟩
    · refine h.settled fun ⟨e, he, hd⟩ => hid ⟨e, ?_, hd⟩
      show m[id]? = some e
      rw [h', he]
    · exact hset

theorem cleanRange_tracks (n : Nat) : ∀ (id : Nat) {c : BlockCache}, c.Tracks g →
    (∀ j, id ≤ j → j < id + n → c.Settled g j) → (c.cleanRange n id).Tracks g ∧
    (c.cleanRange n id).device = c.device ∧ (c.cleanRange n id).maxBlocks = c.maxBlocks := by
  induction n with
  | zero =>
    intro id c h _
    exact ⟨h, rfl, rfl⟩
  | succ n ih =>
    intro id c h hset
    have h₁ : Tracks { c with cache := c.cache.modify id fun e => { e with dirty := false } } g := by
      apply h.clean
      intro j
      rw [Std.TreeMap.getElem?_modify]
      by_cases hj : id = j
      · subst hj
        exact .inr ⟨hset id (Nat.le_refl _) (by omega), by simp⟩
      · exact .inl (by simp [hj])
    exact ih (id + 1) h₁ fun j h₁ h₂ => hset j (by omega) (by omega)

/-! ## `flush_range` and `sync` -/

/-- The common part of the two: write, then the barrier. -/
theorem writeAll_flush_tracks (h : c.Tracks g) (ids : List Nat) :
    (writeAll ids c).2.flushDevice.2.Tracks g ∧ SameCache c (writeAll ids c).2.flushDevice.2 ∧
    ((writeAll ids c).1 = .ok () → (writeAll ids c).2.flushDevice.1 = .ok () →
      ∀ id, id ∈ ids ∨ ¬ c.Dirty id → (writeAll ids c).2.flushDevice.2.Settled g id) := by
  obtain ⟨ht, hs, hk, hw⟩ := writeAll_tracks ids h
  obtain ⟨ht', hs', hf⟩ := flushDevice_tracks ht
  refine ⟨ht', hs.trans hs', fun hok hok' id hid => hf hok' id ?_⟩
  rcases hid with hid | hid
  · exact hw hok id hid
  · exact hk id (h.settled hid).1

/-- A flush of a range that fails anywhere leaves the blocks dirty. -/
theorem flushRange_tracks (h : c.Tracks g) (start count : Nat) :
    (c.flushRange start count).2.Tracks g ∧ (c.flushRange start count).2.device.blockSize = c.device.blockSize := by
  obtain ⟨ht, hs, -⟩ := writeAll_tracks (List.range' start count) h
  obtain ⟨ht', hs', hset⟩ := writeAll_flush_tracks h (List.range' start count)
  unfold flushRange
  rcases hr : writeAll (List.range' start count) c with ⟨r, c₁⟩
  rw [hr] at ht hs ht' hs' hset
  cases r with
  | error e => exact ⟨ht, hs.blockSize⟩
  | ok u =>
    rcases hr' : c₁.flushDevice with ⟨r', c₂⟩
    rw [hr'] at ht' hs' hset
    simp only [hr']
    cases r' with
    | error e => exact ⟨ht', hs'.blockSize⟩
    | ok u' =>
      have hin : ∀ j, start ≤ j → j < start + count → c₂.Settled g j := fun j h₁ h₂ =>
        hset rfl rfl j (.inl (by simp only [List.mem_range'_1]; omega))
      obtain ⟨h₁, h₂, -⟩ := cleanRange_tracks count start ht' hin
      refine ⟨h₁, ?_⟩
      rw [h₂]
      exact hs'.blockSize

/-- A sync that fails anywhere leaves the blocks dirty; one that succeeds leaves every block durable. -/
theorem sync_tracks (h : c.Tracks g) :
    c.sync.2.Tracks g ∧ c.sync.2.device.blockSize = c.device.blockSize ∧
    (c.sync.1 = .ok () → ∀ id, c.sync.2.device.durable id = g id) := by
  obtain ⟨ht, hs, -⟩ := writeAll_tracks c.cache.keys h
  obtain ⟨ht', hs', hset⟩ := writeAll_flush_tracks h c.cache.keys
  unfold sync
  rcases hr : writeAll c.cache.keys c with ⟨r, c₁⟩
  rw [hr] at ht hs ht' hs' hset
  cases r with
  | error e => exact ⟨ht, hs.blockSize, fun hok => by cases hok⟩
  | ok u =>
    rcases hr' : c₁.flushDevice with ⟨r', c₂⟩
    rw [hr'] at ht' hs' hset
    simp only [hr']
    cases r' with
    | error e => exact ⟨ht', hs'.blockSize, fun hok => by cases hok⟩
    | ok u' =>
      -- a block is a key of the cache, or it is not cached and so not dirty
      have hall : ∀ j, c₂.Settled g j := by
        intro j
        apply hset rfl rfl
        cases hc : c.cache[j]? with
        | none => exact .inr (not_dirty_of_none hc)
        | some e =>
          refine .inl ?_
          rw [Std.TreeMap.mem_keys, ← Std.TreeMap.isSome_getElem?_iff_mem, hc]
          rfl
      refine ⟨ht'.clean fun j => .inr ⟨hall j, by rw [Std.TreeMap.getElem?_map]⟩, hs'.blockSize, fun _ j => ?_⟩
      exact (hall j).2

/-! ## Eviction -/

/-- Dropping a block that both layers hold. -/
theorem Tracks.drop {order : List Nat} {id : Nat} (h : c.Tracks g) (hset : c.Settled g id) (hnd : order.Nodup)
    (hord : ∀ j, j ∈ order ↔ j ≠ id ∧ (c.cache[j]?).isSome) :
    Tracks { c with cache := c.cache.erase id, accessOrder := order } g where
  nodup := hnd
  order := fun j => by
    show j ∈ order ↔ ((c.cache.erase id)[j]?).isSome
    rw [hord, getElem?_erase_eq]
    by_cases hj : j = id <;> simp [hj]
  entry := fun {j e} he => by
    have he' : (c.cache.erase id)[j]? = some e := he
    rw [getElem?_erase_eq] at he'
    split at he'
    · cases he'
    · exact h.entry he'
  settled := fun {j} hj => by
    by_cases hji : j = id
    · rw [hji]; exact hset
    · refine h.settled fun ⟨e, he, hd⟩ => hj ⟨e, ?_, hd⟩
      show (c.cache.erase id)[j]? = some e
      rw [getElem?_erase_eq, if_neg hji, he]

/-- A victim is dropped only when both layers hold it. -/
theorem writeback_tracks (h : c.Tracks g) (id : Nat) :
    (c.writeback id).2.Tracks g ∧ SameCache c (c.writeback id).2 ∧
    ((c.writeback id).1 = .ok () → (c.writeback id).2.Settled g id) := by
  obtain ⟨ht, hs, -, hw⟩ := writeDirty_tracks h id
  unfold writeback
  cases hc : c.cache[id]? with
  | none => exact ⟨h, .refl c, fun _ => h.settled (not_dirty_of_none hc)⟩
  | some e =>
    cases hd : e.dirty with
    | false =>
      simp only [hd, Bool.false_eq_true, if_false]
      exact ⟨h, .refl c, fun _ => h.settled (not_dirty_of_clean hc hd)⟩
    | true =>
      simp only [hd, if_true]
      rcases hr : c.writeDirty id with ⟨r, c₁⟩
      rw [hr] at ht hs hw
      cases r with
      | error e => exact ⟨ht, hs, fun hok => by cases hok⟩
      | ok u =>
        obtain ⟨ht', hs', hf⟩ := flushDevice_tracks ht
        exact ⟨ht', hs.trans hs', fun hok => hf hok id (hw rfl)⟩

/-- An eviction that fails halfway keeps the victims it could not write back, at the front of the order. -/
theorem evictFrom_tracks (order : List Nat) : ∀ {c : BlockCache}, c.Tracks g → c.accessOrder = order →
    (evictFrom order c).2.Tracks g ∧ (evictFrom order c).2.device.blockSize = c.device.blockSize := by
  induction order with
  | nil =>
    intro c h _
    exact ⟨h, rfl⟩
  | cons victim rest ih =>
    intro c h horder
    unfold evictFrom
    split
    · exact ⟨h, rfl⟩
    · obtain ⟨ht, hs, hset⟩ := writeback_tracks h victim
      rcases hr : c.writeback victim with ⟨r, c₁⟩
      rw [hr] at ht hs hset
      cases r with
      | error e => exact ⟨ht, hs.blockSize⟩
      | ok u =>
        have hnd : (victim :: rest).Nodup := by rw [← horder]; exact h.nodup
        have hord : ∀ j, j ∈ rest ↔ j ≠ victim ∧ (c₁.cache[j]?).isSome := by
          intro j
          rw [hs.cache, ← h.order j, horder, List.mem_cons]
          constructor
          · intro hj
            exact ⟨fun hv => (List.nodup_cons.1 hnd).1 (hv ▸ hj), .inr hj⟩
          · rintro ⟨hne, hj⟩
            exact hj.resolve_left hne
        obtain ⟨h₁, h₂⟩ := ih (ht.drop (hset rfl) (List.nodup_cons.1 hnd).2 hord) rfl
        exact ⟨h₁, h₂.trans hs.blockSize⟩

/-! ## `read_block_cached` and `write_block_cached` -/

/-- A block enters the cache, whether or not the eviction that follows succeeds. -/
theorem insertNew_tracks (h : c.Tracks g) {id : Nat} {data : Block} {dirty : Bool} (hid : c.cache[id]? = none)
    (hclean : dirty = false → data = g id) :
    (c.insertNew id data dirty).2.Tracks (Function.update g id data) ∧
    (c.insertNew id data dirty).2.device.blockSize = c.device.blockSize := by
  have hnot : id ∉ c.accessOrder := by
    rw [h.order, hid]
    simp
  refine evictFrom_tracks _ ?_ rfl
  refine ⟨?_, fun j => ?_, fun {j e} he => ?_, fun {j} hj => ?_⟩
  · refine List.nodup_append.2 ⟨h.nodup, List.pairwise_singleton _ _, fun a ha b hb hab => ?_⟩
    rw [List.mem_singleton.1 hb] at hab
    exact hnot (hab ▸ ha)
  · show j ∈ c.accessOrder ++ [id] ↔ ((c.cache.insert id _)[j]?).isSome
    rw [getElem?_insert_eq, List.mem_append, List.mem_singleton, h.order j]
    by_cases hj : j = id <;> simp [hj]
  · have he' : (c.cache.insert id ⟨id, data, dirty⟩)[j]? = some e := he
    rw [getElem?_insert_eq] at he'
    split at he'
    · rename_i hj
      cases he'
      exact ⟨hj.symm, by rw [hj, Function.update_self]⟩
    · rename_i hj
      rw [Function.update_of_ne hj]
      exact h.entry he'
  · by_cases hji : j = id
    · -- the new block itself is not dirty only when it was read from the device
      subst hji
      have hdirty : dirty = false := by
        by_contra hd
        exact hj ⟨⟨j, data, dirty⟩, by simp, by simpa using hd⟩
      have hg : Function.update g j data = g := by rw [hclean hdirty, Function.update_eq_self]
      rw [hg]
      exact h.settled (not_dirty_of_none hid)
    · have hset : c.Settled g j := by
        refine h.settled fun ⟨e, he, hd⟩ => hj ⟨e, ?_, hd⟩
        show (c.cache.insert id _)[j]? = some e
        rw [getElem?_insert_eq, if_neg hji, he]
      unfold Settled
      rw [Function.update_of_ne hji]
      exact hset

theorem touch_tracks (h : c.Tracks g) {id : Nat} (hid : (c.cache[id]?).isSome) : (c.touch id).Tracks g where
  nodup := by
    refine List.nodup_append.2 ⟨h.nodup.erase _, List.pairwise_singleton _ _, fun a ha b hb hab => ?_⟩
    rw [List.mem_singleton.1 hb] at hab
    exact (h.nodup.mem_erase_iff.1 ha).1 hab
  order := fun j => by
    show j ∈ c.accessOrder.erase id ++ [id] ↔ (c.cache[j]?).isSome
    rw [List.mem_append, List.mem_singleton, h.nodup.mem_erase_iff, h.order j]
    by_cases hj : j = id
    · rw [hj, hid]; simp
    · simp [hj]
  entry := h.entry
  settled := h.settled

/-- A read that succeeds returns the block; one that fails loses nothing. -/
theorem readBlockCached_tracks (h : c.Tracks g) (id len : Nat) :
    (c.readBlockCached id len).2.Tracks g ∧ (c.readBlockCached id len).2.device.blockSize = c.device.blockSize ∧
    ∀ data, (c.readBlockCached id len).1 = .ok data → data = g id := by
  unfold readBlockCached
  split
  · exact ⟨h, rfl, fun data hok => by cases hok⟩
  · cases hc : c.cache[id]? with
    | some e =>
      refine ⟨touch_tracks h (by rw [hc]; rfl), rfl, fun data hok => ?_⟩
      cases hok
      exact (h.entry hc).2
    | none =>
      have hset := h.settled (not_dirty_of_none hc)
      rcases c.device.readBlock_cases id with ⟨err, hr⟩ | hr
      · simp only [hr]
        exact ⟨h.device fun j hj => h.settled hj, rfl, fun data hok => by cases hok⟩
      · simp only [hr]
        have h₁ : Tracks { c with device := c.device.served } g := h.device fun j hj => h.settled hj
        obtain ⟨h₂, h₃⟩ := insertNew_tracks h₁ hc fun (_ : false = false) => hset.1
        rw [hset.1, Function.update_eq_self] at h₂
        rw [hset.1] at h₃ ⊢
        rcases hi : ({ c with device := c.device.served } : BlockCache).insertNew id (g id) false with ⟨r, c'⟩
        rw [hi] at h₂ h₃
        cases r with
        | error e => exact ⟨h₂, h₃, fun data hok => by cases hok⟩
        | ok u =>
          refine ⟨h₂, h₃, fun data hok => ?_⟩
          cases hok
          rfl

/-- A write of a whole block is accepted, also when the eviction it causes fails. -/
theorem writeBlockCached_tracks (h : c.Tracks g) (id : Nat) (buf : Block) :
    (c.writeBlockCached id buf).2.Tracks (if buf.length = c.device.blockSize then Function.update g id buf else g) ∧
    (c.writeBlockCached id buf).2.device.blockSize = c.device.blockSize := by
  unfold writeBlockCached
  by_cases hlen : buf.length = c.device.blockSize
  · rw [if_neg (by simp [hlen]), if_pos hlen]
    cases hc : c.cache[id]? with
    | none => exact insertNew_tracks h hc fun hf => by cases hf
    | some e =>
      refine ⟨touch_tracks ?_ (by simp), rfl⟩
      refine ⟨h.nodup, fun j => ?_, fun {j e'} he => ?_, fun {j} hj => ?_⟩
      · show j ∈ c.accessOrder ↔ ((c.cache.insert id _)[j]?).isSome
        rw [getElem?_insert_eq, h.order j]
        by_cases hj : j = id <;> simp [hj, hc]
      · have he' : (c.cache.insert id { e with data := buf, dirty := true })[j]? = some e' := he
        rw [getElem?_insert_eq] at he'
        split at he'
        · rename_i hj
          cases he'
          exact ⟨by rw [hj]; exact (h.entry hc).1, by rw [hj, Function.update_self]⟩
        · rename_i hj
          rw [Function.update_of_ne hj]
          exact h.entry he'
      · have hji : j ≠ id := by
          rintro rfl
          exact hj ⟨{ e with data := buf, dirty := true }, by simp, rfl⟩
        have hset : c.Settled g j := by
          refine h.settled fun ⟨e, he, hd⟩ => hj ⟨e, ?_, hd⟩
          show (c.cache.insert id _)[j]? = some e
          rw [getElem?_insert_eq, if_neg hji, he]
        unfold Settled
        rw [Function.update_of_ne hji]
        exact hset
  · rw [if_pos hlen, if_neg hlen]
    exact ⟨h, rfl⟩

end BlockCache

/-! ## Runs -/

/-- A call of the cache. -/
inductive CacheCall where
  | read (id len : Nat)
  | write (id : Nat) (buf : Block)
  | flushRange (start count : Nat)
  | sync
deriving DecidableEq, Repr

namespace CacheCall

open BlockCache

/-- The state a call leaves, whether it succeeds or fails. -/
def after (c : BlockCache) : CacheCall → BlockCache
  | read id len => (c.readBlockCached id len).2
  | write id buf => (c.writeBlockCached id buf).2
  | flushRange start count => (c.flushRange start count).2
  | sync => c.sync.2

def run (calls : List CacheCall) (c : BlockCache) : BlockCache := calls.foldl after c

/-- The blocks after a call: a write of `size` bytes is accepted into the cache whatever the device does. -/
def accept (size : Nat) (g : Nat → Block) : CacheCall → Nat → Block
  | write id buf => if buf.length = size then Function.update g id buf else g
  | _ => g

/-- The last accepted value of every block. -/
def accepted (size : Nat) (calls : List CacheCall) (g : Nat → Block) : Nat → Block := calls.foldl (accept size) g

variable {c : BlockCache} {g : Nat → Block}

theorem after_tracks (h : c.Tracks g) (call : CacheCall) :
    (call.after c).Tracks (call.accept c.device.blockSize g) ∧
    (call.after c).device.blockSize = c.device.blockSize := by
  cases call with
  | read id len => exact ⟨(readBlockCached_tracks h id len).1, (readBlockCached_tracks h id len).2.1⟩
  | write id buf => exact writeBlockCached_tracks h id buf
  | flushRange start count => exact flushRange_tracks h start count
  | sync => exact ⟨(sync_tracks h).1, (sync_tracks h).2.1⟩

theorem run_tracks (calls : List CacheCall) : ∀ {c : BlockCache} {g : Nat → Block}, c.Tracks g →
    (run calls c).Tracks (accepted c.device.blockSize calls g) := by
  induction calls with
  | nil =>
    intro c g h
    exact h
  | cons call calls ih =>
    intro c g h
    obtain ⟨h₁, hsize⟩ := after_tracks h call
    have h₂ := ih h₁
    rw [hsize] at h₂
    exact h₂

/-- **The block cache under device failure.** Whatever requests of the device fail, after any run of calls on a new
cache the access order lists the cached blocks once each, a cached read that succeeds returns the last accepted value,
a block that is not dirty has its last accepted value on the durable layer, and after a sync that succeeds every block
has. -/
theorem cache_under_failure (size maxBlocks : Nat) (durable : Nat → Block) (faults : Nat → Option BlockError)
    (calls : List CacheCall) :
    let c := run calls (BlockCache.new ⟨size, durable, [], faults, 0⟩ maxBlocks)
    let g := accepted size calls durable
    (c.accessOrder.Nodup ∧ ∀ id, id ∈ c.accessOrder ↔ id ∈ c.cache) ∧
    (∀ id len data, (c.readBlockCached id len).1 = .ok data → data = g id) ∧
    (∀ id, ¬ c.Dirty id → c.device.durable id = g id ∧ c.device.content id = g id ∧
      ∀ e, c.cache[id]? = some e → e.data = c.device.durable id) ∧
    (c.sync.1 = .ok () → ∀ id, c.sync.2.device.durable id = g id) := by
  intro c g
  have h : c.Tracks g := run_tracks calls (new_tracks rfl maxBlocks)
  refine ⟨⟨h.nodup, fun id => ?_⟩, fun id len => (readBlockCached_tracks h id len).2.2, fun id hid => ?_,
    (sync_tracks h).2.2⟩
  · rw [h.order, Std.TreeMap.isSome_getElem?_iff_mem]
  · obtain ⟨hcontent, hdurable⟩ := h.settled hid
    refine ⟨hdurable, hcontent, fun e he => ?_⟩
    rw [hdurable]
    exact (h.entry he).2

end CacheCall

end Koros.Fs
