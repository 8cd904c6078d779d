import ExpiringCache.Proofs.PlainCache.Alike

/-! # The stored keys in order of use

    A cache is `Ordered` by a list of keys if these are the keys that it
    stores, the coldest first, and if its recency list, where there is one,
    has the same keys in the same order.  So the store and the recency list
    of such a cache agree, and there are no more entries than it has room
    for.

    Each operation takes one ordered cache to another.  What it does to the
    list does not depend on the two structures: a key that is used moves to
    the hot end, and keys that are deleted are left out. -/

namespace ExpiringCache

variable {K V : Type} [DecidableEq K]

namespace Recency

/-! ## Using a key of a list -/

/-- The keys after `key` was used, of which no more than `capacity` are kept;
    0 stands for any number. -/
def used (capacity : Nat) (key : K) (ks : List K) : List K :=
  (others key ks ++ [key]).drop (surplus capacity ((others key ks).length + 1))

theorem nodup_others_append {ks : List K} (h : ks.Nodup) (key : K) :
    (others key ks ++ [key]).Nodup := by
  rw [List.nodup_append]
  refine ⟨nodup_others h, List.nodup_singleton key, fun a ha b hb => ?_⟩
  rw [List.mem_singleton.mp hb]
  exact (mem_others.mp ha).2

theorem nodup_used {ks : List K} (h : ks.Nodup) (capacity : Nat) (key : K) :
    (used capacity key ks).Nodup :=
  (nodup_others_append h key).sublist (List.drop_sublist _ _)

/-- No order gets longer than the capacity. -/
theorem length_used_le {capacity : Nat} (h : capacity ≠ 0) (key : K) (ks : List K) :
    (used capacity key ks).length ≤ capacity := by
  rw [used, surplus_of_ne h, List.length_drop, List.length_append, List.length_singleton]
  omega

/-- Of the keys that were there and the used one, those are kept that do not
    fall off. -/
theorem mem_used {ks : List K} (h : ks.Nodup) (capacity : Nat) (key k : K) :
    k ∈ used capacity key ks ↔
      k ∉ (others key ks ++ [key]).take (surplus capacity ((others key ks).length + 1)) ∧
        (k = key ∨ k ∈ ks) := by
  have hn := nodup_others_append h key
  have hall : k ∈ others key ks ++ [key] ↔ k = key ∨ k ∈ ks := by
    rw [List.mem_append, List.mem_singleton, mem_others]
    by_cases hk : k = key
    · simp [hk]
    · simp [hk]
  rw [← hall, used]
  generalize surplus capacity ((others key ks).length + 1) = n
  rw [← List.take_append_drop n (others key ks ++ [key])] at hn
  constructor
  · intro hmem
    exact ⟨fun htake => List.disjoint_of_nodup_append hn htake hmem, List.mem_of_mem_drop hmem⟩
  · rintro ⟨htake, hmem⟩
    rw [← List.take_append_drop n (others key ks ++ [key]), List.mem_append] at hmem
    exact hmem.resolve_left htake

end Recency

namespace Cache

/-! ## Ordered caches -/

/-- The cache has the given capacity, and its stored keys are `ks`, the
    coldest first. -/
structure Ordered (c : Cache K V) (capacity : Nat) (ks : List K) : Prop where
  bounded : c.capacity = capacity
  nodup : ks.Nodup
  stored : ∀ k, k ∈ ks ↔ (c.store.item? k).isSome = true
  ranks : c.Ranks ks
  room : capacity ≠ 0 → ks.length ≤ capacity

theorem ordered_new (capacity : Nat) (clock : Clock) :
    (new capacity clock : Cache K V).Ordered capacity [] where
  bounded := rfl
  nodup := List.nodup_nil
  stored := fun _ => ⟨fun h => (nomatch h), fun h => (nomatch h)⟩
  ranks := ranks_new capacity clock
  room := fun _ => Nat.zero_le _

namespace Ordered

variable {c c' : Cache K V} {capacity : Nat} {ks : List K}

/-! ## What the two structures show -/

/-- The stored keys are those of the order. -/
theorem mem_keys (h : c.Ordered capacity ks) {k : K} : k ∈ c.keys ↔ k ∈ ks := by
  rw [h.stored]
  exact Table.contains_iff.symm

/-- The store lists the keys in some order. -/
theorem perm_keys (h : c.Ordered capacity ks) : c.keys.Perm ks :=
  (List.perm_ext_iff_of_nodup c.store.items.nodup h.nodup).mpr fun _ => h.mem_keys

/-- A cache is as large as its order is long. -/
theorem size_eq (h : c.Ordered capacity ks) : c.size = ks.length := by
  rw [← h.perm_keys.length_eq]
  exact (List.length_map Prod.fst).symm

/-- A cache of bounded capacity has a recency list with just these keys. -/
theorem recency (h : c.Ordered capacity ks) (hcap : capacity ≠ 0) :
    ∃ r, c.recency = some r ∧ r.Lists ks := by
  rcases h.ranks with ⟨hzero, -⟩ | ⟨r, -, hsome, -, hlists⟩
  · exact absurd (h.bounded.symm.trans hzero) hcap
  · exact ⟨r, hsome, hlists⟩

/-- A cache of unbounded capacity has none. -/
theorem unranked (h : c.Ordered 0 ks) : c.recency = none := by
  rcases h.ranks with ⟨-, hnone⟩ | ⟨r, hne, -⟩
  · exact hnone
  · exact absurd h.bounded hne

/-! ## Steps that change no key -/

/-- Neither the items themselves nor anything beside the store and the
    recency list matter. -/
theorem same (h : c.Ordered capacity ks) (hcap : c'.capacity = c.capacity)
    (hrecency : c'.recency = c.recency)
    (hitem : ∀ k, (c'.store.item? k).isSome = (c.store.item? k).isSome) :
    c'.Ordered capacity ks where
  bounded := hcap.trans h.bounded
  nodup := h.nodup
  stored := fun k => by rw [hitem, h.stored]
  ranks := h.ranks.same hcap hrecency
  room := h.room

theorem read (h : c.Ordered capacity ks) : c.read.Ordered capacity ks :=
  h.same rfl rfl fun _ => rfl

theorem flights (h : c.Ordered capacity ks) (flights : Flights K) :
    Ordered { c with store := { c.store with flights := flights } } capacity ks :=
  h.same rfl rfl fun _ => rfl

/-! ## Using a key -/

/-- Marking a key as used, after an item was stored under it or if there was
    one already. -/
theorem use (h : c.Ordered capacity ks) (key : K) (hcap : c'.capacity = c.capacity)
    (hrecency : c'.recency = c.recency)
    (hitem : ∀ k, (c'.store.item? k).isSome = true ↔ k = key ∨ k ∈ ks) :
    (c'.touch key).Ordered capacity (Recency.used capacity key ks) := by
  have hranks := h.ranks.same hcap hrecency
  have hcapacity := hcap.trans h.bounded
  refine ⟨?_, Recency.nodup_used h.nodup _ key, fun k => ?_, ?_, ?_⟩
  · rw [capacity_touch, hcapacity]
  · rw [Recency.mem_used h.nodup, item?_touch, hranks.evicts, hcapacity, ← hitem k]
    split
    · rename_i hfalls
      exact ⟨fun hmem => absurd hfalls hmem.1, fun hmem => absurd hmem Bool.false_ne_true⟩
    · rename_i hstays
      exact ⟨And.right, fun hmem => ⟨hstays, hmem⟩⟩
  · rw [← hcapacity]
    exact hranks.touch key
  · exact fun hne => Recency.length_used_le hne key ks

/-- Using a stored key. -/
theorem touch (h : c.Ordered capacity ks) {key : K} (hkey : key ∈ ks) :
    (c.touch key).Ordered capacity (Recency.used capacity key ks) := by
  refine h.use key rfl rfl fun k => ?_
  rw [← h.stored]
  constructor
  · exact Or.inr
  · rintro (rfl | hk)
    · exact hkey
    · exact hk

/-- What is stored once an item is stored under `key`. -/
theorem isSome_set (h : c.Ordered capacity ks) (key : K) (item : Item V) (k : K) :
    ((c.store.set key item).item? k).isSome = true ↔ k = key ∨ k ∈ ks := by
  rw [Store.item?_set, h.stored]
  by_cases hk : key = k
  · rw [if_pos hk]
    exact ⟨fun _ => Or.inl hk.symm, fun _ => rfl⟩
  · rw [if_neg hk]
    exact ⟨Or.inr, fun hor => hor.resolve_left fun e => hk e.symm⟩

/-- A write uses its key, whether it was there or not. -/
theorem write (h : c.Ordered capacity ks) (key : K) (value : V) (expireAt : Int) :
    (c.write key value expireAt).Ordered capacity (Recency.used capacity key ks) :=
  h.use key rfl rfl (h.isSome_set key ⟨value, expireAt⟩)

/-- Giving a stored key another item uses it, whatever is noticed of it. -/
theorem change (h : c.Ordered capacity ks) (key : K) (item : Item V)
    (notices : NoticeQueue K) :
    (Cache.touch { c with store := c.store.set key item, notices := notices } key).Ordered
      capacity (Recency.used capacity key ks) :=
  h.use key rfl rfl (h.isSome_set key item)

/-! ## Deleting keys -/

/-- Removing keys leaves the others in their order. -/
theorem remove (h : c.Ordered capacity ks) (keys : List K) :
    (c.remove keys).2.Ordered capacity (ks.filter fun k => !decide (k ∈ keys)) := by
  have hdeletes : ks.filter (fun k => !decide (k ∈ c.deletes keys)) =
      ks.filter fun k => !decide (k ∈ keys) := by
    refine List.filter_congr fun k hk => ?_
    simp only [mem_deletes, (h.stored k).mp hk, and_true]
  refine ⟨?_, h.nodup.sublist List.filter_sublist, fun k => ?_, ?_, fun hcap => ?_⟩
  · rw [capacity_remove, h.bounded]
  · rw [List.mem_filter, h.stored, item?_remove]
    by_cases hk : k ∈ keys
    · simp [hk]
    · simp [hk]
  · have hranks := h.ranks.deletes keys
    rw [hdeletes] at hranks
    exact hranks
  · exact Nat.le_trans (List.length_filter_le _ ks) (h.room hcap)

/-- Taking a key out of both structures. -/
theorem delete (h : c.Ordered capacity ks) (key : K) (hcap : c'.capacity = c.capacity)
    (hrecency : c'.recency = c.recency.map fun recency => recency.remove key)
    (hitem : ∀ k, c'.store.item? k = if key = k then none else c.store.item? k) :
    c'.Ordered capacity (Recency.others key ks) where
  bounded := hcap.trans h.bounded
  nodup := Recency.nodup_others h.nodup
  stored := fun k => by
    rw [Recency.mem_others, h.stored, hitem]
    by_cases hk : key = k
    · simp [hk]
    · rw [if_neg hk]
      exact ⟨And.left, fun hs => ⟨hs, fun e => hk e.symm⟩⟩
  ranks := h.ranks.remove key hcap hrecency
  room := fun hne => Nat.le_trans (List.length_filter_le _ ks) (h.room hne)

theorem clear (h : c.Ordered capacity ks) : c.clear.Ordered capacity [] where
  bounded := h.bounded
  nodup := List.nodup_nil
  stored := fun _ => ⟨fun hk => (nomatch hk), fun hk => (nomatch hk)⟩
  ranks := h.ranks.clear
  room := fun _ => Nat.zero_le _

/-! ## Reading -/

/-- A live key is in the order. -/
theorem mem_of_live (h : c.Ordered capacity ks) {now : Int} {key : K} {item : Item V}
    (hlive : c.store.live? now key = some item) : key ∈ ks := by
  rw [h.stored, (Store.live?_eq_some.mp hlive).1]
  rfl

end Ordered

end Cache

end ExpiringCache
