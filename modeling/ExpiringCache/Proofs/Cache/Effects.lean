import ExpiringCache.Cache.Call
import ExpiringCache.Cache.Sweep

/-! # What the operations change

    Three operations delete entries: marking a key as used, removing keys,
    and collecting an expired key.  For each of them this file says what
    becomes of every part of the cache; whatever else a call or a sweep does
    to the entries is made of them and of storing items. -/

namespace ExpiringCache

variable {K V : Type}

@[simp] theorem Cache.now_read (c : Cache K V) : c.read.now = c.now := Clock.now_read c.clock

/-- A second reading shows and leaves what the first did. -/
@[simp] theorem Cache.read_read (c : Cache K V) : c.read.read = c.read := by
  have hclock : c.clock.read.read = c.clock.read := by
    rw [Clock.read, Clock.now_read]
    rfl
  show { c with clock := c.clock.read.read } = _
  rw [hclock]
  rfl

/-- A lifetime that is asked for takes no reading beyond the one that follows
    it. -/
@[simp] theorem Cache.read_expiryFrom (c : Cache K V) (ttl : Duration) :
    (c.expiryFrom ttl).2.read = c.read := by
  show Cache.read (if _ then c else c.read) = c.read
  split
  · rfl
  · exact c.read_read

/-- To read the clock never takes it back. -/
theorem Cache.latest_le_read (c : Cache K V) : c.clock.latest ≤ c.read.clock.latest :=
  Int.le_max_right _ _

/-- A live item has not run out: the time that it has left is not the span
    that stands for none. -/
theorem Item.remainingAt_ne_absent {item : Item V} {now : Int} (h : now < item.expireAt) :
    item.remainingAt now ≠ Store.absentSpan := by
  simp only [Item.remainingAt, Store.absentSpan]
  split
  · decide
  · omega

variable [DecidableEq K]

namespace Store

omit [DecidableEq K] in
/-- A store is its items and its flights. -/
theorem eq_of_parts {s s' : Store K V} (hitems : s.items = s'.items)
    (hflights : s.flights = s'.flights) : s = s' := by
  obtain ⟨items, flights⟩ := s
  cases hitems
  cases hflights
  rfl

/-! ## Deleting from the store -/

/-- Deleting keys one after another leaves every other item alone. -/
theorem item?_foldl_delete (s : Store K V) (keys : List K) (k : K) :
    (keys.foldl (fun store key => (store.delete key).2) s).item? k =
      if k ∈ keys then none else s.item? k := by
  induction keys generalizing s with
  | nil => rfl
  | cons key rest ih =>
      rw [List.foldl_cons, ih, item?_delete]
      by_cases hr : k ∈ rest
      · rw [if_pos hr, if_pos (List.mem_cons_of_mem _ hr)]
      · rw [if_neg hr]
        by_cases hk : key = k
        · rw [if_pos hk, if_pos (List.mem_cons.mpr (Or.inl hk.symm))]
        · have hmem : k ∉ key :: rest := by
            rw [List.mem_cons, not_or]
            exact ⟨fun e => hk e.symm, hr⟩
          rw [if_neg hk, if_neg hmem]

/-- The registry has no part in the deletion of entries. -/
theorem flights_foldl_delete (s : Store K V) (keys : List K) :
    (keys.foldl (fun store key => (store.delete key).2) s).flights = s.flights := by
  induction keys generalizing s with
  | nil => rfl
  | cons key rest ih => exact ih _

/-- Deleting several keys deletes those and no others. -/
theorem item?_deleteAll (s : Store K V) (now : Int) (keys : List K) (k : K) :
    (s.deleteAll now keys).2.item? k = if k ∈ keys then none else s.item? k := by
  induction keys generalizing s with
  | nil => rfl
  | cons key rest ih =>
      cases hitem : s.item? key with
      | none =>
          simp only [deleteAll, hitem, ih, List.mem_cons]
          by_cases hk : k = key
          · subst hk
            rw [if_pos (Or.inl rfl), hitem]
            split
            · rfl
            · rfl
          · simp only [hk, false_or]
      | some item =>
          simp only [deleteAll, hitem, ih, List.mem_cons]
          have herase := item?_delete s key k
          by_cases hk : k = key
          · subst hk
            rw [if_pos rfl] at herase
            rw [if_pos (Or.inl rfl)]
            split
            · rfl
            · exact herase
          · rw [if_neg (fun e => hk e.symm)] at herase
            simp only [hk, false_or]
            rw [show item? { s with items := s.items.erase key } k = s.item? k from herase]

/-- The keys that are said to be deleted are those that were there. -/
theorem mem_deleteAll (s : Store K V) (now : Int) (keys : List K) (k : K) :
    k ∈ (s.deleteAll now keys).1.1 ↔ k ∈ keys ∧ (s.item? k).isSome = true := by
  induction keys generalizing s with
  | nil => simp [deleteAll]
  | cons key rest ih =>
      cases hitem : s.item? key with
      | none =>
          simp only [deleteAll, hitem, ih, List.mem_cons]
          constructor
          · rintro ⟨hr, hs⟩
            exact ⟨Or.inr hr, hs⟩
          · rintro ⟨rfl | hr, hs⟩
            · rw [hitem] at hs
              exact nomatch hs
            · exact ⟨hr, hs⟩
      | some item =>
          simp only [deleteAll, hitem, ih, List.mem_cons]
          have herase : item? { s with items := s.items.erase key } k =
              if key = k then none else s.item? k := item?_delete s key k
          rw [herase]
          by_cases hk : key = k
          · subst hk
            rw [if_pos rfl, hitem]
            simp
          · rw [if_neg hk]
            have hk' : k ≠ key := fun e => hk e.symm
            simp only [hk', false_or]

/-- The registry has no part in the removal of keys. -/
theorem flights_deleteAll (s : Store K V) (now : Int) (keys : List K) :
    (s.deleteAll now keys).2.flights = s.flights := by
  induction keys generalizing s with
  | nil => rfl
  | cons key rest ih =>
      cases hitem : s.item? key with
      | none =>
          simp only [deleteAll, hitem]
          exact ih s
      | some item =>
          simp only [deleteAll, hitem]
          exact ih _

end Store

namespace Cache

/-! ## Looking a key up -/

/-- A live key is answered with its value. -/
theorem get_of_live {c : Cache K V} {key : K} {item : Item V}
    (h : c.read.store.live? c.read.now key = some item) :
    c.get key = (some item.value, (c.get key).2) := Prod.ext (by simp only [get, h]) rfl

/-- A key that is not live is answered with nothing. -/
theorem get_of_dead {c : Cache K V} {key : K} (h : c.read.store.live? c.read.now key = none) :
    c.get key = (none, (c.get key).2) := Prod.ext (by simp only [get, h]) rfl

/-! ## Marking a key as used -/

/-- The keys that fall off the recency list when `key` is used. -/
def evicts (c : Cache K V) (key : K) : List K :=
  match c.recency with
  | none => []
  | some recency => (recency.touch key).1

/-- Marking a key as used, part by part. -/
theorem touch_eq (c : Cache K V) (key : K) :
    c.touch key =
      { c with
        clock := if (c.evicts key).isEmpty then c.clock else c.clock.read
        store := (c.evicts key).foldl (fun store key => (store.delete key).2) c.store
        recency := c.recency.map fun recency => (recency.touch key).2
        notices := c.notices.pushAll (c.evicts key) (c.now - removalOffset)
        counters := c.counters.evicted (c.evicts key).length } := by
  have hnone : c.notices.pushAll [] (c.now - removalOffset) = c.notices := by
    simp [NoticeQueue.pushAll]
  cases hr : c.recency with
  | none =>
      simp only [touch, evicts, hr, hnone, Option.map_none]
      rw [← hr]
      rfl
  | some recency =>
      simp only [touch, evicts, hr]
      cases hl : (recency.touch key).1 with
      | nil =>
          simp only [hnone]
          rfl
      | cons k rest =>
          have hnow : c.read.now = c.now := now_read c
          simp only [List.isEmpty_cons, Bool.false_eq_true, if_false]
          rw [← hnow]
          rfl

/-- A cache without a recency list does not care how its keys are used. -/
theorem touch_of_unranked {c : Cache K V} (h : c.recency = none) (key : K) :
    c.touch key = c := by
  simp only [touch, h]

@[simp] theorem capacity_touch (c : Cache K V) (key : K) :
    (c.touch key).capacity = c.capacity := by
  rw [touch_eq]

@[simp] theorem index_touch (c : Cache K V) (key : K) : (c.touch key).index = c.index := by
  rw [touch_eq]

/-- The recency list of a cache that is touched is its own, touched. -/
theorem recency_touch (c : Cache K V) (key : K) :
    (c.touch key).recency = c.recency.map fun recency => (recency.touch key).2 := by
  rw [touch_eq]

@[simp] theorem flights_touch (c : Cache K V) (key : K) :
    (c.touch key).store.flights = c.store.flights := by
  rw [touch_eq]
  exact Store.flights_foldl_delete ..

@[simp] theorem now_touch (c : Cache K V) (key : K) : (c.touch key).now = c.now := by
  rw [touch_eq]
  show Clock.now (if _ then _ else _) = _
  split
  · rfl
  · exact Clock.now_read c.clock

/-- To touch a key never takes the clock back. -/
theorem latest_le_touch (c : Cache K V) (key : K) :
    c.clock.latest ≤ (c.touch key).clock.latest := by
  rw [touch_eq]
  show c.clock.latest ≤ Clock.latest (if _ then _ else _)
  split
  · exact Int.le_refl _
  · exact c.latest_le_read

/-- To touch a key deletes what falls off the recency list, and no other entry
    changes. -/
theorem item?_touch (c : Cache K V) (key k : K) :
    (c.touch key).store.item? k = if k ∈ c.evicts key then none else c.store.item? k := by
  rw [touch_eq]
  exact Store.item?_foldl_delete ..

/-- Each key that falls off the recency list is noted, with a date in the
    past. -/
theorem waiting_touch (c : Cache K V) (key : K) :
    (c.touch key).notices.waiting =
      c.notices.waiting ++ (c.evicts key).map fun k => ⟨k, c.now - removalOffset⟩ := by
  rw [touch_eq]
  rfl

/-! ## Removing keys -/

/-- The keys that are there and that a removal deletes. -/
def deletes (c : Cache K V) (keys : List K) : List K := (c.store.deleteAll c.now keys).1.1

/-- Removing keys, part by part. -/
theorem remove_eq (c : Cache K V) (keys : List K) :
    c.remove keys =
      ((c.store.deleteAll c.now keys).1.2,
        { c with
          clock := if keys.isEmpty then c.clock else c.clock.read
          store := (c.store.deleteAll c.now keys).2
          notices := c.notices.pushAll (c.deletes keys) (c.now - removalOffset)
          recency := c.recency.map fun recency => recency.removeAll (c.deletes keys) }) := by
  have hnow : c.read.now = c.now := now_read c
  cases keys with
  | nil =>
      have hrecency : (c.recency.map fun recency => recency.removeAll []) = c.recency := by
        cases c.recency with
        | none => rfl
        | some recency => rfl
      show (none, c) = _
      simp [deletes, Store.deleteAll, NoticeQueue.pushAll, hrecency]
  | cons key rest =>
      simp only [remove, deletes, List.isEmpty_cons, Bool.false_eq_true, if_false, hnow]
      rfl

@[simp] theorem capacity_remove (c : Cache K V) (keys : List K) :
    (c.remove keys).2.capacity = c.capacity := by
  rw [remove_eq]

@[simp] theorem index_remove (c : Cache K V) (keys : List K) :
    (c.remove keys).2.index = c.index := by
  rw [remove_eq]

@[simp] theorem flights_remove (c : Cache K V) (keys : List K) :
    (c.remove keys).2.store.flights = c.store.flights := by
  rw [remove_eq]
  exact Store.flights_deleteAll ..

@[simp] theorem now_remove (c : Cache K V) (keys : List K) :
    (c.remove keys).2.now = c.now := by
  rw [remove_eq]
  show Clock.now (if _ then _ else _) = _
  split
  · rfl
  · exact Clock.now_read c.clock

/-- To remove keys never takes the clock back. -/
theorem latest_le_remove (c : Cache K V) (keys : List K) :
    c.clock.latest ≤ (c.remove keys).2.clock.latest := by
  rw [remove_eq]
  show c.clock.latest ≤ Clock.latest (if _ then _ else _)
  split
  · exact Int.le_refl _
  · exact c.latest_le_read

/-- To remove keys deletes their entries, live or not, and no other entry
    changes. -/
theorem item?_remove (c : Cache K V) (keys : List K) (k : K) :
    (c.remove keys).2.store.item? k = if k ∈ keys then none else c.store.item? k := by
  rw [remove_eq]
  exact Store.item?_deleteAll ..

/-- Each key whose entry was deleted is noted, with a date in the past. -/
theorem waiting_remove (c : Cache K V) (keys : List K) :
    (c.remove keys).2.notices.waiting =
      c.notices.waiting ++ (c.deletes keys).map fun k => ⟨k, c.now - removalOffset⟩ := by
  rw [remove_eq]
  rfl

/-- The keys that a removal deletes are those of its list that are stored. -/
theorem mem_deletes {c : Cache K V} {keys : List K} {k : K} :
    k ∈ c.deletes keys ↔ k ∈ keys ∧ (c.store.item? k).isSome = true :=
  Store.mem_deleteAll ..

/-! ## Collecting a key -/

/-- Collecting a key does nothing unless there is an expired item. -/
theorem collect_eq (c : Cache K V) (now : Int) (key : K) :
    c.collect now key =
      if (c.store.item? key).any fun item => item.isExpiredAt now then
        (true,
          { c with
            store := (c.store.delete key).2
            recency := c.recency.map fun recency => recency.remove key })
      else (false, c) := by
  cases hitem : c.store.item? key with
  | none => simp [collect, Store.deleteExpired, hitem]
  | some item =>
      cases hexp : item.isExpiredAt now with
      | false => simp [collect, Store.deleteExpired, hitem, hexp]
      | true => simp [collect, Store.deleteExpired, Store.delete, hitem, hexp]

/-- A collected key keeps its item if that is live. -/
theorem item?_collect (c : Cache K V) (now : Int) (key k : K) :
    (c.collect now key).2.store.item? k =
      if key = k then c.store.live? now k else c.store.item? k := by
  rw [collect_eq]
  cases hitem : c.store.item? key with
  | none =>
      show c.store.item? k = _
      split
      · rename_i hk
        rw [← hk, Store.live?, hitem]
        rfl
      · rfl
  | some item =>
      cases hexp : item.isExpiredAt now with
      | false =>
          simp only [Option.any_some, hexp, Bool.false_eq_true, if_false]
          split
          · rename_i hk
            rw [← hk, Store.live?, hitem]
            simp [Option.filter, hexp]
          · rfl
      | true =>
          simp only [Option.any_some, hexp, if_true]
          show (c.store.delete key).2.item? k = _
          rw [Store.item?_delete]
          split
          · rename_i hk
            rw [← hk, Store.live?, hitem]
            simp [Option.filter, hexp]
          · rfl

@[simp] theorem index_collect (c : Cache K V) (now : Int) (key : K) :
    (c.collect now key).2.index = c.index := by
  rw [collect_eq]
  split
  · rfl
  · rfl

end Cache

end ExpiringCache
