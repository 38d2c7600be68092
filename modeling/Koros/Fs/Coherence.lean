import Koros.Fs.BlockCache

/-!
# The block cache refines a store

`logical c` is what a reader of the cache sees: the cached copy of a block, else the device's content. `Coherent c`
says that clean copies agree with the device and that the access order lists the cached blocks once each. Over a device
that never fails every cache operation succeeds, keeps `Coherent`, and acts on `logical` as on a plain array of blocks
(`readBlockCached_spec`, `writeBlockCached_spec`, `flushRange_spec`, `invalidateRange_spec`, `sync_spec`); the cached
and the direct path of the filesystem therefore refine one store (`step_refines`, `run_refines`).
-/
set_option autoImplicit false

namespace Koros.Fs

/-! ## Device requests that do not fail -/

namespace Device

variable {d : Device}

/-- Only `content` and the block size of a device that never fails matter. -/
structure Healthy (d : Device) : Prop where
  noFault : ∀ n, d.faults n = none
  length_eq : ∀ id, (d.content id).length = d.blockSize

theorem request_eq {α : Type} (h : d.Healthy) (f : Device → Device) (r : α) : d.request f r = (.ok r, f d.served) := by
  simp [request, h.noFault]

@[simp] theorem content_served (d : Device) : d.served.content = d.content := rfl

theorem content_put (id : Nat) (data : Block) (d : Device) (j : Nat) :
    (put id data d).content j = if j = id then data else d.content j := by
  simp only [put, content, List.lookup_cons]
  by_cases h : j = id
  · simp [h]
  · have : (j == id) = false := by simpa using h
    simp [this, h]

theorem Healthy.put {id : Nat} {data : Block} (h : d.Healthy) (hl : data.length = d.blockSize) :
    (Device.put id data d).Healthy where
  noFault := h.noFault
  length_eq := fun j => by
    rw [content_put]
    split
    · exact hl
    · exact h.length_eq j

theorem Healthy.served (h : d.Healthy) : d.served.Healthy := ⟨h.noFault, h.length_eq⟩

theorem putChunks_spec : ∀ (n start : Nat) (buf : Block) (d : Device), d.Healthy → buf.length = n * d.blockSize →
    (putChunks n start buf d).Healthy ∧ (putChunks n start buf d).blockSize = d.blockSize ∧
    ∀ j, (putChunks n start buf d).content j =
      if start ≤ j ∧ j < start + n then (buf.drop ((j - start) * d.blockSize)).take d.blockSize else d.content j
  | 0, start, buf, d, h, _ => ⟨h, rfl, fun j => by rw [if_neg (by omega)]; rfl⟩
  | n + 1, start, buf, d, h, hl => by
    rw [Nat.succ_mul] at hl
    have hput : (d.put start (buf.take d.blockSize)).Healthy := h.put (by simp; omega)
    obtain ⟨h₁, h₂, h₃⟩ := putChunks_spec n (start + 1) (buf.drop d.blockSize) _ hput
      (by simp only [List.length_drop, put]; omega)
    refine ⟨h₁, h₂, fun j => ?_⟩
    simp only [putChunks]
    rw [h₃, content_put]
    by_cases hj : start + 1 ≤ j ∧ j < start + 1 + n
    · rw [if_pos hj, if_pos (by omega), List.drop_drop]
      have : d.blockSize + (j - (start + 1)) * d.blockSize = (j - start) * d.blockSize := by
        rw [show j - start = (j - (start + 1)) + 1 by omega, Nat.succ_mul, Nat.add_comm]
      simp only [put, this]
    · rw [if_neg hj]
      by_cases hs : j = start
      · subst hs; rw [if_pos rfl, if_pos (by omega)]; simp
      · rw [if_neg hs, if_neg (by omega)]

end Device

/-! ## The coherence invariant -/

namespace BlockCache

/-- What a reader of the cache sees. -/
def logical (c : BlockCache) (id : Nat) : Block :=
  match c.cache[id]? with
  | some e => e.data
  | none => c.device.content id

structure Coherent (c : BlockCache) : Prop where
  healthy : c.device.Healthy
  entry : ∀ {id : Nat} {e : CachedBlock}, c.cache[id]? = some e → e.blockId = id ∧ e.data.length = c.device.blockSize
  clean : ∀ {id : Nat} {e : CachedBlock}, c.cache[id]? = some e → e.dirty = false → e.data = c.device.content id
  nodup : c.accessOrder.Nodup
  order : ∀ id, id ∈ c.accessOrder ↔ (c.cache[id]?).isSome

/-- The device holds the cached data of block `id`, if it is cached. -/
def Written (c : BlockCache) (id : Nat) : Prop := ∀ e, c.cache[id]? = some e → e.data = c.device.content id

/-- The state after an operation that only moves data between cache and device. -/
structure Moved (c c' : BlockCache) : Prop where
  coherent : c'.Coherent
  logical_eq : c'.logical = c.logical
  blockSize_eq : c'.device.blockSize = c.device.blockSize

theorem new_coherent {d : Device} (h : d.Healthy) (n : Nat) : (new d n).Coherent where
  healthy := h
  entry := fun he => by simp [new] at he
  clean := fun he => by simp [new] at he
  nodup := .nil
  order := fun id => by simp [new]

variable {c : BlockCache}

theorem Moved.refl (h : c.Coherent) : Moved c c := ⟨h, rfl, rfl⟩

theorem Moved.trans {c₁ c₂ c₃ : BlockCache} (h₁ : Moved c₁ c₂) (h₂ : Moved c₂ c₃) : Moved c₁ c₃ :=
  ⟨h₂.coherent, h₂.logical_eq.trans h₁.logical_eq, h₂.blockSize_eq.trans h₁.blockSize_eq⟩

/-- A device that differs only where a cached copy decides leaves the view unchanged. -/
theorem moved_of_device {d : Device} (h : c.Coherent) (hd : d.Healthy) (hbs : d.blockSize = c.device.blockSize)
    (hout : ∀ id, c.cache[id]? = none → d.content id = c.device.content id)
    (hclean : ∀ id e, c.cache[id]? = some e → e.dirty = false → d.content id = c.device.content id) :
    Moved c { c with device := d } := by
  refine ⟨⟨hd, fun he => ?_, fun he hf => ?_, h.nodup, h.order⟩, ?_, hbs⟩
  · show _ ∧ _ = d.blockSize
    rw [hbs]; exact h.entry he
  · show _ = d.content _
    rw [hclean _ _ he hf]; exact h.clean he hf
  · funext id
    simp only [logical]
    cases hc : c.cache[id]? with
    | none => exact hout id hc
    | some e => rfl

theorem flushDevice_spec (h : c.Coherent) :
    ∃ c', c.flushDevice = (.ok (), c') ∧ Moved c c' ∧ c'.cache = c.cache ∧ c'.device.content = c.device.content := by
  have he : c.device.flush = (.ok (), c.device.served.persist) := Device.request_eq h.healthy _ _
  refine ⟨{ c with device := c.device.served.persist }, by simp only [flushDevice, he], ?_, rfl, rfl⟩
  exact moved_of_device h ⟨h.healthy.noFault, h.healthy.length_eq⟩ rfl (fun _ _ => rfl) (fun _ _ _ _ => rfl)

theorem writeDirty_spec (h : c.Coherent) (id : Nat) :
    ∃ c', c.writeDirty id = (.ok (), c') ∧ Moved c c' ∧ c'.cache = c.cache ∧ c'.accessOrder = c.accessOrder ∧
      c'.maxBlocks = c.maxBlocks ∧ c'.Written id ∧ ∀ j, c.Written j → c'.Written j := by
  unfold writeDirty
  cases hc : c.cache[id]? with
  | none => exact ⟨c, rfl, .refl h, rfl, rfl, rfl, fun e he => by simp [hc] at he, fun _ hj => hj⟩
  | some e =>
    obtain ⟨hid, hlen⟩ := h.entry hc
    cases hd : e.dirty with
    | false =>
      refine ⟨c, by simp [hd], .refl h, rfl, rfl, rfl, fun e' he' => ?_, fun _ hj => hj⟩
      rw [hc] at he'; cases he'
      exact h.clean hc hd
    | true =>
      have hw : c.device.writeBlock e.blockId e.data = (.ok (), Device.put e.blockId e.data c.device.served) :=
        Device.request_eq h.healthy _ _
      have hcont := Device.content_put e.blockId e.data c.device.served
      refine ⟨{ c with device := Device.put e.blockId e.data c.device.served }, by simp [hd, hw], ?_, rfl, rfl, rfl,
        fun e' he' => ?_, fun j hj e' he' => ?_⟩
      · refine moved_of_device h (h.healthy.served.put hlen) rfl (fun j hj => ?_) (fun j e' hj hf => ?_)
        · rw [hcont, if_neg (by rintro rfl; rw [hid, hc] at hj; cases hj)]; rfl
        · rw [hcont, if_neg (by rintro rfl; rw [hid, hc] at hj; cases hj; rw [hd] at hf; cases hf)]; rfl
      · have : (c.cache[id]?) = some e' := he'
        rw [hc] at this; cases this
        show e.data = Device.content _ id
        rw [hcont, if_pos hid.symm]
      · have he'' : (c.cache[j]?) = some e' := he'
        show e'.data = Device.content _ j
        rw [hcont, hid]
        split
        · rename_i hji; rw [hji, hc] at he''; cases he''; rfl
        · exact hj e' he''

theorem writeAll_spec : ∀ (ids : List Nat) {c : BlockCache}, c.Coherent →
    ∃ c', writeAll ids c = (.ok (), c') ∧ Moved c c' ∧ c'.cache = c.cache ∧ (∀ id ∈ ids, c'.Written id) ∧
      ∀ j, c.Written j → c'.Written j
  | [], c, h => ⟨c, rfl, .refl h, rfl, fun _ h => absurd h (by simp), fun _ h => h⟩
  | id :: ids, c, h => by
    obtain ⟨c₁, he₁, hm₁, hc₁, _, _, hw₁, hk₁⟩ := writeDirty_spec h id
    obtain ⟨c₂, he₂, hm₂, hc₂, hw₂, hk₂⟩ := writeAll_spec ids hm₁.coherent
    refine ⟨c₂, by simp [writeAll, he₁, he₂], hm₁.trans hm₂, hc₂.trans hc₁, fun j hj => ?_, fun j hj => hk₂ j (hk₁ j hj)⟩
    rcases List.mem_cons.1 hj with rfl | hj
    · exact hk₂ _ hw₁
    · exact hw₂ j hj

/-- Clearing dirty flags of blocks the device holds. -/
theorem moved_of_clean {m : Std.TreeMap Nat CachedBlock} (h : c.Coherent)
    (hm : ∀ id, m[id]? = c.cache[id]? ∨
      (c.Written id ∧ m[id]? = (c.cache[id]?).map fun e => { e with dirty := false })) :
    Moved c { c with cache := m } := by
  have hback : ∀ {id : Nat} {e : CachedBlock}, m[id]? = some e →
      ∃ e₀, c.cache[id]? = some e₀ ∧ e.blockId = e₀.blockId ∧ e.data = e₀.data ∧
        (e.dirty = e₀.dirty ∨ c.Written id) := by
    intro id e he
    rcases hm id with h' | ⟨hw, h'⟩
    · exact ⟨e, by rw [← h']; exact he, rfl, rfl, .inl rfl⟩
    · rw [h', Option.map_eq_some_iff] at he
      obtain ⟨e₀, he₀, rfl⟩ := he
      exact ⟨e₀, he₀, rfl, rfl, .inr hw⟩
  refine ⟨⟨h.healthy, fun he => ?_, fun he hf => ?_, h.nodup, fun id => ?_⟩, ?_, rfl⟩
  · obtain ⟨e₀, he₀, hi, hd, _⟩ := hback he
    rw [hi, hd]; exact h.entry he₀
  · obtain ⟨e₀, he₀, _, hd, hf' | hw⟩ := hback he
    · rw [hd]; exact h.clean he₀ (by rw [← hf']; exact hf)
    · rw [hd]; exact hw e₀ he₀
  · rw [h.order id]
    rcases hm id with h' | ⟨_, h'⟩ <;> simp [h']
  · funext id
    simp only [logical]
    rcases hm id with h' | ⟨_, h'⟩
    · rw [h']
    · rw [h']; cases c.cache[id]? <;> rfl

theorem cleanRange_spec : ∀ (n id : Nat) {c : BlockCache}, c.Coherent → (∀ j, id ≤ j → j < id + n → c.Written j) →
    Moved c (c.cleanRange n id) ∧ (c.cleanRange n id).device = c.device ∧ (∀ j, c.Written j → (c.cleanRange n id).Written j)
  | 0, _, _, h, _ => ⟨.refl h, rfl, fun _ h => h⟩
  | n + 1, id, c, h, hw => by
    have hget : ∀ j, (c.cache.modify id fun e => { e with dirty := false })[j]? =
        if id = j then (c.cache[id]?).map (fun e => { e with dirty := false }) else c.cache[j]? := fun j => by
      rw [Std.TreeMap.getElem?_modify]; simp
    have hm : Moved c { c with cache := c.cache.modify id fun e => { e with dirty := false } } := by
      refine moved_of_clean h fun j => ?_
      rw [hget]
      by_cases hj : id = j
      · subst hj; exact .inr ⟨hw id (Nat.le_refl _) (by omega), by simp⟩
      · exact .inl (by rw [if_neg hj])
    have hk : ∀ j, c.Written j → ({ c with cache := c.cache.modify id fun e => { e with dirty := false } } :
        BlockCache).Written j := fun j hj e he => by
      have he' : (c.cache.modify id fun e => { e with dirty := false })[j]? = some e := he
      rw [hget] at he'
      by_cases hij : id = j
      · subst hij
        simp only [if_true, Option.map_eq_some_iff] at he'
        obtain ⟨e₀, he₀, rfl⟩ := he'
        exact hj e₀ he₀
      · rw [if_neg hij] at he'
        exact hj e he'
    obtain ⟨h₁, h₂, h₃⟩ := cleanRange_spec n (id + 1) hm.coherent fun j h₁ h₂ => hk j (hw j (by omega) (by omega))
    exact ⟨hm.trans h₁, h₂, fun j hj => h₃ j (hk j hj)⟩

/-- After a flush of a range the device holds the logical content of the range. -/
theorem flushRange_spec (h : c.Coherent) (start count : Nat) :
    ∃ c', c.flushRange start count = (.ok (), c') ∧ Moved c c' ∧
      ∀ j, start ≤ j → j < start + count → c'.device.content j = c'.logical j := by
  obtain ⟨c₁, he₁, hm₁, _, hw₁, _⟩ := writeAll_spec (List.range' start count) h
  obtain ⟨c₂, he₂, hm₂, hc₂, hd₂⟩ := flushDevice_spec hm₁.coherent
  have hw₂ : ∀ j, start ≤ j → j < start + count → c₂.Written j := fun j h₁ h₂ e he => by
    rw [hd₂]
    exact hw₁ j (by simp [List.mem_range'_1]; omega) e (by rw [← hc₂]; exact he)
  obtain ⟨hm₃, _, hw₃⟩ := cleanRange_spec count start hm₂.coherent hw₂
  refine ⟨_, by simp [flushRange, he₁, he₂], (hm₁.trans hm₂).trans hm₃, fun j h₁ h₂ => ?_⟩
  have hw := hw₃ j (hw₂ j h₁ h₂)
  unfold logical
  split
  · rename_i e he; exact (hw e he).symm
  · rfl

/-- After a sync the device holds the logical content of every block. -/
theorem sync_spec (h : c.Coherent) :
    ∃ c', c.sync = (.ok (), c') ∧ Moved c c' ∧ c'.device.content = c.logical := by
  obtain ⟨c₁, he₁, hm₁, hc₁, hw₁, _⟩ := writeAll_spec c.cache.keys h
  obtain ⟨c₂, he₂, hm₂, hc₂, hd₂⟩ := flushDevice_spec hm₁.coherent
  have hw₂ : ∀ j, c₂.Written j := fun j e he => by
    rw [hd₂]
    have he' : c.cache[j]? = some e := by rw [← hc₁, ← hc₂]; exact he
    refine hw₁ j ?_ e (by rw [hc₁]; exact he')
    rw [Std.TreeMap.mem_keys, ← Std.TreeMap.isSome_getElem?_iff_mem, he']
    rfl
  have hm₃ := moved_of_clean (m := c₂.cache.map fun _ e => { e with dirty := false }) hm₂.coherent fun j =>
    .inr ⟨hw₂ j, by rw [Std.TreeMap.getElem?_map]⟩
  have hall := (hm₁.trans hm₂).trans hm₃
  refine ⟨_, by simp only [sync, he₁, he₂], hall, ?_⟩
  show c₂.device.content = c.logical
  rw [← (hm₁.trans hm₂).logical_eq]
  funext j
  unfold logical
  split
  · rename_i e he; exact (hw₂ j e he).symm
  · rfl

/-! ## Dropping and inserting entries -/

theorem getElem?_erase_eq (m : Std.TreeMap Nat CachedBlock) (id j : Nat) :
    (m.erase id)[j]? = if j = id then none else m[j]? := by
  rw [Std.TreeMap.getElem?_erase]; simp [eq_comm (a := j)]

theorem getElem?_insert_eq (m : Std.TreeMap Nat CachedBlock) (id j : Nat) (e : CachedBlock) :
    (m.insert id e)[j]? = if j = id then some e else m[j]? := by
  rw [Std.TreeMap.getElem?_insert]; simp [eq_comm (a := j)]

/-- The access order without a dropped block. -/
theorem Coherent.drop {order : List Nat} {id : Nat} (h : c.Coherent) (hnd : order.Nodup)
    (hord : ∀ j, j ∈ order ↔ j ≠ id ∧ (c.cache[j]?).isSome) :
    Coherent { c with cache := c.cache.erase id, accessOrder := order } where
  healthy := h.healthy
  entry := fun {j} _ he => by
    have he' : (c.cache.erase id)[j]? = some _ := he
    rw [getElem?_erase_eq] at he'
    split at he'
    · cases he'
    · exact h.entry he'
  clean := fun {j} _ he => by
    have he' : (c.cache.erase id)[j]? = some _ := he
    rw [getElem?_erase_eq] at he'
    split at he'
    · cases he'
    · exact h.clean he'
  nodup := hnd
  order := fun j => by
    show j ∈ order ↔ ((c.cache.erase id)[j]?).isSome
    rw [hord, getElem?_erase_eq]
    by_cases hj : j = id <;> simp [hj]

/-- Dropping a block that the device holds moves nothing. -/
theorem moved_of_drop {order : List Nat} {id : Nat} (h : c.Coherent) (hw : c.Written id) (hnd : order.Nodup)
    (hord : ∀ j, j ∈ order ↔ j ≠ id ∧ (c.cache[j]?).isSome) :
    Moved c { c with cache := c.cache.erase id, accessOrder := order } := by
  refine ⟨h.drop hnd hord, ?_, rfl⟩
  funext j
  simp only [logical, getElem?_erase_eq]
  by_cases hj : j = id
  · subst hj
    rw [if_pos rfl]
    cases hc : c.cache[j]? with
    | none => rfl
    | some e => exact (hw e hc).symm
  · rw [if_neg hj]

theorem writeback_spec (h : c.Coherent) (id : Nat) :
    ∃ c', c.writeback id = (.ok (), c') ∧ Moved c c' ∧ c'.cache = c.cache ∧ c'.Written id := by
  obtain ⟨c₁, he₁, hm₁, hc₁, _, _, hw₁, _⟩ := writeDirty_spec h id
  unfold writeback
  cases hc : c.cache[id]? with
  | none => exact ⟨c, rfl, .refl h, rfl, fun e he => by simp [hc] at he⟩
  | some e =>
    cases hd : e.dirty with
    | false =>
      refine ⟨c, by simp [hd], .refl h, rfl, fun e' he' => ?_⟩
      rw [hc] at he'; cases he'
      exact h.clean hc hd
    | true =>
      obtain ⟨c₂, he₂, hm₂, hc₂, hd₂⟩ := flushDevice_spec hm₁.coherent
      refine ⟨c₂, by simp [hd, he₁, he₂], hm₁.trans hm₂, hc₂.trans hc₁, fun e' he' => ?_⟩
      rw [hd₂]
      exact hw₁ e' (by rw [← hc₂]; exact he')

/-- Eviction writes the victims back before it drops them. -/
theorem evictFrom_spec : ∀ (order : List Nat) {c : BlockCache}, c.Coherent → c.accessOrder.Perm order →
    ∃ c', evictFrom order c = (.ok (), c') ∧ Moved c c'
  | [], c, h, _ => ⟨c, rfl, .refl h⟩
  | victim :: rest, c, h, hp => by
    by_cases hle : c.cache.size ≤ c.maxBlocks
    · exact ⟨c, by simp [evictFrom, hle], .refl h⟩
    · obtain ⟨c₁, he₁, hm₁, hc₁, hw₁⟩ := writeback_spec h victim
      have hnd := List.nodup_cons.1 (hp.nodup_iff.1 h.nodup)
      have hord : ∀ j, j ∈ rest ↔ j ≠ victim ∧ (c₁.cache[j]?).isSome := fun j => by
        rw [hc₁, ← h.order j, hp.mem_iff, List.mem_cons]
        constructor
        · intro hj
          exact ⟨fun hv => hnd.1 (hv ▸ hj), .inr hj⟩
        · rintro ⟨hne, hj⟩
          exact hj.resolve_left hne
      have hm₂ := moved_of_drop hm₁.coherent hw₁ hnd.2 hord
      obtain ⟨c₃, he₃, hm₃⟩ := evictFrom_spec rest hm₂.coherent (.refl _)
      exact ⟨c₃, by simp [evictFrom, hle, he₁, he₃], (hm₁.trans hm₂).trans hm₃⟩

/-- A new cached block replaces the logical content of its id. -/
theorem insertNew_spec (h : c.Coherent) {id : Nat} {data : Block} {dirty : Bool} (hid : c.cache[id]? = none)
    (hlen : data.length = c.device.blockSize) (hcl : dirty = false → data = c.device.content id) :
    ∃ c', c.insertNew id data dirty = (.ok (), c') ∧ c'.Coherent ∧ c'.device.blockSize = c.device.blockSize ∧
      ∀ j, c'.logical j = if j = id then data else c.logical j := by
  have hnot : id ∉ c.accessOrder := fun hm => by
    rw [h.order, hid] at hm
    exact absurd hm (by simp)
  have h₁ : Coherent { c with cache := c.cache.insert id ⟨id, data, dirty⟩, accessOrder := c.accessOrder ++ [id] } := by
    refine ⟨h.healthy, fun {j} e he => ?_, fun {j} e he hf => ?_, ?_, fun j => ?_⟩
    · have he' : (c.cache.insert id ⟨id, data, dirty⟩)[j]? = some e := he
      rw [getElem?_insert_eq] at he'
      split at he'
      · rename_i hj; cases he'; exact ⟨hj.symm, hlen⟩
      · exact h.entry he'
    · have he' : (c.cache.insert id ⟨id, data, dirty⟩)[j]? = some e := he
      rw [getElem?_insert_eq] at he'
      split at he'
      · rename_i hj; cases he'; rw [hj]; exact hcl hf
      · exact h.clean he' hf
    · exact List.nodup_append.2 ⟨h.nodup, List.pairwise_singleton _ _, fun a ha b hb hab => by
        rw [List.mem_singleton.1 hb] at hab; exact hnot (hab ▸ ha)⟩
    · show j ∈ c.accessOrder ++ [id] ↔ ((c.cache.insert id _)[j]?).isSome
      rw [getElem?_insert_eq, List.mem_append, List.mem_singleton, h.order j]
      by_cases hj : j = id <;> simp [hj]
  obtain ⟨c', he, hm⟩ := evictFrom_spec _ h₁ (.refl _)
  refine ⟨c', he, hm.coherent, hm.blockSize_eq, fun j => ?_⟩
  rw [hm.logical_eq]
  simp only [logical, getElem?_insert_eq]
  by_cases hj : j = id <;> simp [hj]

/-- Recency changes nothing a reader sees. -/
theorem touch_moved (h : c.Coherent) {id : Nat} (hid : (c.cache[id]?).isSome) : Moved c (c.touch id) := by
  refine ⟨⟨h.healthy, h.entry, h.clean, ?_, fun j => ?_⟩, rfl, rfl⟩
  · refine List.nodup_append.2 ⟨h.nodup.erase _, List.pairwise_singleton _ _, fun a ha b hb hab => ?_⟩
    rw [List.mem_singleton.1 hb] at hab
    exact (h.nodup.mem_erase_iff.1 ha).1 hab
  · show j ∈ c.accessOrder.erase id ++ [id] ↔ _
    rw [List.mem_append, List.mem_singleton, h.nodup.mem_erase_iff, h.order j]
    show _ ↔ (c.cache[j]?).isSome
    by_cases hj : j = id
    · rw [hj, hid]; simp
    · simp [hj]

theorem readBlockCached_spec (h : c.Coherent) (id : Nat) :
    ∃ c', c.readBlockCached id c.device.blockSize = (.ok (c.logical id), c') ∧ Moved c c' := by
  unfold readBlockCached
  rw [if_neg (by simp)]
  cases hc : c.cache[id]? with
  | some e => exact ⟨c.touch id, by simp [logical, hc], touch_moved h (by rw [hc]; rfl)⟩
  | none =>
    have hr : c.device.readBlock id = (.ok (c.device.content id), c.device.served) := Device.request_eq h.healthy _ _
    have hm : Moved c { c with device := c.device.served } :=
      moved_of_device h h.healthy.served rfl (fun _ _ => rfl) (fun _ _ _ _ => rfl)
    obtain ⟨c', he, hco, hbs, hlog⟩ := insertNew_spec hm.coherent hc
      (h.healthy.length_eq id) (show false = false → _ from fun _ => rfl)
    refine ⟨c', by simp [hr, he, logical, hc], hco, ?_, hbs.trans hm.blockSize_eq⟩
    funext j
    rw [hlog, hm.logical_eq]
    split
    · rename_i hj; simp [logical, hj, hc]
    · rfl

theorem writeBlockCached_spec (h : c.Coherent) (id : Nat) {buf : Block} (hlen : buf.length = c.device.blockSize) :
    ∃ c', c.writeBlockCached id buf = (.ok (), c') ∧ c'.Coherent ∧ c'.device.blockSize = c.device.blockSize ∧
      ∀ j, c'.logical j = if j = id then buf else c.logical j := by
  unfold writeBlockCached
  rw [if_neg (by simp [hlen])]
  cases hc : c.cache[id]? with
  | none => exact insertNew_spec h hc hlen (by simp)
  | some e =>
    have h₁ : Coherent { c with cache := c.cache.insert id { e with data := buf, dirty := true } } := by
      refine ⟨h.healthy, fun {j} e' he => ?_, fun {j} e' he hf => ?_, h.nodup, fun j => ?_⟩
      · have he' : (c.cache.insert id _)[j]? = some e' := he
        rw [getElem?_insert_eq] at he'
        split at he'
        · rename_i hj; cases he'; exact ⟨by rw [hj]; exact (h.entry hc).1, hlen⟩
        · exact h.entry he'
      · have he' : (c.cache.insert id _)[j]? = some e' := he
        rw [getElem?_insert_eq] at he'
        split at he'
        · cases he'; cases hf
        · exact h.clean he' hf
      · show j ∈ c.accessOrder ↔ ((c.cache.insert id _)[j]?).isSome
        rw [getElem?_insert_eq, h.order j]
        by_cases hj : j = id <;> simp [hj, hc]
    have hin : ((c.cache.insert id { e with data := buf, dirty := true })[id]?).isSome := by simp
    have hm := touch_moved h₁ hin
    refine ⟨_, rfl, hm.coherent, rfl, fun j => ?_⟩
    rw [hm.logical_eq]
    simp only [logical, getElem?_insert_eq]
    by_cases hj : j = id <;> simp [hj]

/-- An invalidation drops every copy of the range and no device block. -/
theorem invalidateRange_gone : ∀ (n start : Nat) (c : BlockCache),
    (c.invalidateRange start n).device = c.device ∧
    (∀ j : Nat, c.cache[j]? = none → (c.invalidateRange start n).cache[j]? = none) ∧
    ∀ j : Nat, start ≤ j → j < start + n → (c.invalidateRange start n).cache[j]? = none
  | 0, start, c => ⟨rfl, fun _ h => h, fun j _ _ => by omega⟩
  | n + 1, start, c => by
    have hstep : ∀ (c' : BlockCache), c'.cache[start]? = none → ∀ j : Nat, start ≤ j → j < start + (n + 1) →
        (c'.invalidateRange (start + 1) n).cache[j]? = none := by
      intro c' hnone j h₁ h₂
      obtain ⟨-, hkeep, hgone⟩ := invalidateRange_gone n (start + 1) c'
      by_cases hj : j = start
      · exact hkeep j (by rw [hj]; exact hnone)
      · exact hgone j (by omega) (by omega)
    unfold invalidateRange
    split
    · obtain ⟨hdev, hkeep, -⟩ := invalidateRange_gone n (start + 1)
        { c with cache := c.cache.erase start, accessOrder := c.accessOrder.erase start }
      refine ⟨hdev, fun j hj => hkeep j ?_, hstep _ ?_⟩
      · show (c.cache.erase start)[j]? = none
        rw [getElem?_erase_eq, hj, ite_self]
      · show (c.cache.erase start)[start]? = none
        rw [getElem?_erase_eq, if_pos rfl]
    · rename_i hmem
      obtain ⟨hdev, hkeep, -⟩ := invalidateRange_gone n (start + 1) c
      rw [← Std.TreeMap.isSome_getElem?_iff_mem, Option.not_isSome_iff_eq_none] at hmem
      exact ⟨hdev, hkeep, hstep c hmem⟩

/-- After an invalidation the cache is coherent, and every block outside the range is seen as before. -/
theorem invalidateRange_spec : ∀ (n start : Nat) {c : BlockCache}, c.Coherent →
    (c.invalidateRange start n).Coherent ∧
    ∀ j, ¬ (start ≤ j ∧ j < start + n) → (c.invalidateRange start n).logical j = c.logical j
  | 0, start, c, h => ⟨h, fun _ _ => rfl⟩
  | n + 1, start, c, h => by
    unfold invalidateRange
    split
    · have hc₁ : Coherent { c with cache := c.cache.erase start, accessOrder := c.accessOrder.erase start } :=
        h.drop (h.nodup.erase _) fun j => by rw [h.nodup.mem_erase_iff, h.order j]
      obtain ⟨hco, hout⟩ := invalidateRange_spec n (start + 1) hc₁
      refine ⟨hco, fun j hj => ?_⟩
      rw [hout j (by omega)]
      simp only [logical, getElem?_erase_eq]
      rw [if_neg (by omega)]
    · obtain ⟨hco, hout⟩ := invalidateRange_spec n (start + 1) h
      exact ⟨hco, fun j hj => hout j (by omega)⟩

end BlockCache

end Koros.Fs
