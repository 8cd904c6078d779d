import ExpiringCache.PlainCache
import ExpiringCache.Proofs.Cache.Effects
import ExpiringCache.Proofs.EntryList
import ExpiringCache.Proofs.Recency

/-! # Caches that are like a plain cache

    A cache is `Alike` a plain cache if the same is found in both under every
    key, its recency list, where there is one, has the keys in the order of
    the plain entries, and both show the same time.  Notices, index and
    counters have no counterpart.

    Three changes of the entries exist, and each is followed on both sides
    here: placing an item at the hot end, deleting keys, and deleting keys
    that are expired.  The calls of the next file are made of them. -/

namespace ExpiringCache

variable {K V : Type} [DecidableEq K]

/-! ## Keys by their latest use -/

/-- A cache of bounded capacity has a recency list with the keys `ks`,
    coldest first; any other cache has none. -/
def Cache.Ranks (c : Cache K V) (ks : List K) : Prop :=
  (c.capacity = 0 ∧ c.recency = none) ∨
    ∃ r, c.capacity ≠ 0 ∧ c.recency = some r ∧ r.capacity = c.capacity ∧ r.Lists ks

/-- The number of `count` entries that a cache has no room for. -/
def surplus (capacity count : Nat) : Nat := if capacity = 0 then 0 else count - capacity

theorem surplus_of_ne {capacity : Nat} (h : capacity ≠ 0) (count : Nat) :
    surplus capacity count = count - capacity := if_neg h

/-- A new cache ranks no keys. -/
theorem Cache.ranks_new (capacity : Nat) (clock : Clock) :
    (new capacity clock : Cache K V).Ranks [] := by
  by_cases hcap : capacity = 0
  · exact Or.inl ⟨hcap, if_pos hcap⟩
  · refine Or.inr ⟨.empty capacity, hcap, if_neg hcap, ?_, Recency.lists_empty capacity⟩
    show max capacity 1 = capacity
    omega

/-- Taking keys out one after another leaves the keys that are none of
    them. -/
theorem foldl_others (keys ks : List K) :
    keys.foldl (fun ks key => Recency.others key ks) ks =
      ks.filter fun k => !decide (k ∈ keys) := by
  induction keys generalizing ks with
  | nil => simp
  | cons key rest ih =>
      rw [List.foldl_cons, ih, Recency.others, List.filter_filter]
      refine List.filter_congr fun k _ => ?_
      simp only [List.mem_cons, Bool.decide_or, Bool.not_or]
      exact Bool.and_comm _ _

namespace Cache.Ranks

variable {c c' : Cache K V} {ks : List K}

/-- What falls off are the cold keys that are too many once the used key is
    at the hot end. -/
theorem evicts (h : c.Ranks ks) (key : K) :
    c.evicts key =
      (Recency.others key ks ++ [key]).take
        (surplus c.capacity ((Recency.others key ks).length + 1)) := by
  rcases h with ⟨hcap, hnone⟩ | ⟨r, hcap, hsome, hr, hlists⟩
  · simp only [Cache.evicts, hnone, surplus, if_pos hcap, List.take_zero]
  · have hsurplus := surplus_of_ne hcap ((Recency.others key ks).length + 1)
    rw [hsurplus, ← hr]
    simp only [Cache.evicts, hsome]
    exact (hlists.touch key).1

/-- To touch a key puts it at the hot end of the order and drops the cold
    surplus. -/
theorem touch (h : c.Ranks ks) (key : K) :
    (c.touch key).Ranks
      ((Recency.others key ks ++ [key]).drop
        (surplus c.capacity ((Recency.others key ks).length + 1))) := by
  rcases h with ⟨hcap, hnone⟩ | ⟨r, hcap, hsome, hr, hlists⟩
  · refine Or.inl ⟨?_, ?_⟩
    · rw [capacity_touch, hcap]
    · rw [recency_touch, hnone]
      rfl
  · refine Or.inr ⟨(r.touch key).2, ?_, ?_, ?_, ?_⟩
    · rwa [capacity_touch]
    · rw [recency_touch, hsome]
      rfl
    · rw [capacity_touch, Recency.capacity_touch, hr]
    · rw [surplus_of_ne hcap, ← hr]
      exact (hlists.touch key).2

/-- Whatever is done to the list alone is done to its keys. -/
theorem map {f : Recency K → Recency K} {g : List K → List K} (h : c.Ranks ks)
    (hf : ∀ r ks, r.Lists ks → (f r).capacity = r.capacity ∧ (f r).Lists (g ks))
    (hcap : c'.capacity = c.capacity) (hrecency : c'.recency = c.recency.map f) :
    c'.Ranks (g ks) := by
  rcases h with ⟨hzero, hnone⟩ | ⟨r, hpos, hsome, hr, hlists⟩
  · refine Or.inl ⟨hcap.trans hzero, ?_⟩
    rw [hrecency, hnone]
    rfl
  · refine Or.inr ⟨f r, by rwa [hcap], ?_, ?_, (hf r ks hlists).2⟩
    · rw [hrecency, hsome]
      rfl
    · rw [(hf r ks hlists).1, hr, hcap]

/-- Nothing but the list itself matters. -/
theorem same (h : c.Ranks ks) (hcap : c'.capacity = c.capacity)
    (hrecency : c'.recency = c.recency) : c'.Ranks ks := by
  refine h.map (f := id) (g := id) (fun r ks hl => ⟨rfl, hl⟩) hcap ?_
  rw [hrecency, Option.map_id, id]

/-- To take a key out of the list takes it out of the order. -/
theorem remove (h : c.Ranks ks) (key : K) (hcap : c'.capacity = c.capacity)
    (hrecency : c'.recency = c.recency.map fun r => r.remove key) :
    c'.Ranks (Recency.others key ks) :=
  h.map (g := Recency.others key)
    (fun r _ hl => ⟨Recency.capacity_remove r key, hl.remove key⟩) hcap hrecency

/-- A removal takes the keys that it deletes out of the list. -/
theorem deletes (h : c.Ranks ks) (keys : List K) :
    (c.remove keys).2.Ranks (ks.filter fun k => !decide (k ∈ c.deletes keys)) := by
  have hrecency : (c.remove keys).2.recency =
      c.recency.map fun r => r.removeAll (c.deletes keys) := by rw [remove_eq]
  have hranks := h.map
    (fun r _ hl => ⟨Recency.capacity_removeAll r (c.deletes keys), hl.removeAll _⟩)
    (capacity_remove c keys) hrecency
  rw [foldl_others] at hranks
  exact hranks

/-- To clear a cache leaves an empty order. -/
theorem clear (h : c.Ranks ks) : c.clear.Ranks [] :=
  h.map (f := Recency.clear) (g := fun _ => []) (fun r _ _ => ⟨rfl, r.lists_clear⟩) rfl rfl

end Cache.Ranks

/-! ## The relation -/

/-- The cache and the plain cache have the same entries, in the same order
    of use as far as there is one, at the same time; no computation is in
    progress. -/
structure Alike (c : Cache K V) (p : PlainCache K V) : Prop where
  capacity : p.capacity = c.capacity
  now : p.now = c.now
  latest : p.clock.latest ≤ c.clock.latest
  item? : ∀ k, c.store.item? k = Table.find? k p.entries
  nodup : (p.entries.map Prod.fst).Nodup
  running : c.store.flights.running = []
  ranks : c.Ranks (p.entries.map Prod.fst)

/-- The second cache differs from the first at most in its items, its
    notices, index and counters, and in that its clock was read. -/
structure Cache.Beside (c c' : Cache K V) : Prop where
  capacity : c'.capacity = c.capacity
  recency : c'.recency = c.recency
  flights : c'.store.flights = c.store.flights
  now : c'.now = c.now
  latest : c.clock.latest ≤ c'.clock.latest

namespace Alike

variable {c c' : Cache K V} {p : PlainCache K V}

/-! ## What both show -/

/-- The same is live in both. -/
theorem live? (h : Alike c p) (key : K) : c.store.live? c.now key = p.live? key := by
  show (c.store.item? key).filter _ = (Table.find? key p.entries).filter _
  rw [h.item? key, h.now]

/-- Both have the same entries, if one does not look at their order. -/
theorem perm (h : Alike c p) : c.store.items.entries.Perm p.entries :=
  Table.perm_of_find? c.store.items.nodup h.nodup h.item?

/-- The keys of a snapshot are those of the plain entries, in some order. -/
theorem perm_keys (h : Alike c p) : c.keys.Perm (p.entries.map Prod.fst) :=
  h.perm.map Prod.fst

/-- The values of a snapshot are those of the plain entries, in some order. -/
theorem perm_values (h : Alike c p) :
    c.values.Perm (p.entries.map fun entry => entry.2.value) := by
  show ((c.store.items.entries.map Prod.snd).map Item.value).Perm _
  rw [List.map_map]
  exact h.perm.map _

/-- The entries of a snapshot are the plain ones, in some order. -/
theorem perm_data (h : Alike c p) :
    c.data.Perm (p.entries.map fun entry => (entry.1, entry.2.value)) :=
  h.perm.map _

/-- Both are of the same size. -/
theorem size_eq (h : Alike c p) : c.size = p.entries.length := h.perm.length_eq

/-- The key of an entry is one of the listed keys, and the other way round. -/
theorem mem_keys (h : Alike c p) {key : K} :
    key ∈ p.entries.map Prod.fst ↔ (c.store.item? key).isSome = true := by
  rw [h.item? key, Table.find?_isSome]

/-! ## Steps that change no entry -/

/-- What has no counterpart in a plain cache does not matter to it. -/
theorem beside (h : Alike c p) (hb : c.Beside c')
    (hitem : ∀ k, c'.store.item? k = c.store.item? k) : Alike c' p where
  capacity := h.capacity.trans hb.capacity.symm
  now := h.now.trans hb.now.symm
  latest := Int.le_trans h.latest hb.latest
  item? := fun k => (hitem k).trans (h.item? k)
  nodup := h.nodup
  running := (congrArg Flights.running hb.flights).trans h.running
  ranks := by
    have hranks := h.ranks
    rcases hranks with ⟨hzero, hnone⟩ | ⟨r, hpos, hsome, hr, hlists⟩
    · exact Or.inl ⟨hb.capacity.trans hzero, hb.recency.trans hnone⟩
    · refine Or.inr ⟨r, ?_, hb.recency.trans hsome, hr.trans hb.capacity.symm, hlists⟩
      rwa [hb.capacity]

end Alike

/-! ## Placing an item -/

/-- To take an entry out of a plain cache takes its key out of the order. -/
theorem map_without (key : K) (entries : List (K × Item V)) :
    (Table.without key entries).map Prod.fst = Recency.others key (entries.map Prod.fst) := by
  show List.map Prod.fst (List.filter _ entries) = _
  rw [Recency.others, List.filter_map]
  rfl

namespace PlainCache

/-- The entries after an item was placed, before the cold ones are dropped. -/
theorem map_hot (p : PlainCache K V) (key : K) (item : Item V) :
    (Table.without key p.entries ++ [(key, item)]).map Prod.fst =
      Recency.others key (p.entries.map Prod.fst) ++ [key] := by
  rw [List.map_append, map_without]
  rfl

/-- To place an item in a plain cache puts it at the hot end and drops the
    cold surplus. -/
theorem place_entries (p : PlainCache K V) (key : K) (item : Item V) :
    (p.place key item).entries =
      (Table.without key p.entries ++ [(key, item)]).drop
        (surplus p.capacity
          ((Recency.others key (p.entries.map Prod.fst)).length + 1)) := by
  have hlength := congrArg List.length (map_hot p key item)
  rw [List.length_map, @List.length_append _ _ [key], List.length_singleton] at hlength
  rw [← hlength]
  rfl

/-- No key occurs twice after an item has been placed. -/
theorem nodup_hot {p : PlainCache K V} (h : (p.entries.map Prod.fst).Nodup) (key : K)
    (item : Item V) :
    ((Table.without key p.entries ++ [(key, item)]).map Prod.fst).Nodup := by
  rw [map_hot, List.nodup_append]
  refine ⟨Recency.nodup_others h, List.nodup_singleton key, fun a ha b hb => ?_⟩
  rw [List.mem_singleton.mp hb]
  exact (Recency.mem_others.mp ha).2

/-- An item that has been placed is found under its key, before the surplus is
    dropped. -/
theorem find?_hot (p : PlainCache K V) (key k : K) (item : Item V) :
    Table.find? k (Table.without key p.entries ++ [(key, item)]) =
      if key = k then some item else Table.find? k p.entries := by
  rw [Table.find?_append, Table.find?_without]
  by_cases hk : key = k
  · rw [if_pos hk, if_pos hk, Option.none_or, Table.find?, if_pos hk]
  · rw [if_neg hk, if_neg hk, Table.find?, if_neg hk, Table.find?, Option.or_none]

end PlainCache

namespace Alike

variable {c c' : Cache K V} {p : PlainCache K V}

/-- Storing an item and marking its key as used places the item at the hot
    end; what falls off the recency list are the cold entries. -/
theorem place (h : Alike c p) {key : K} {item : Item V} (hb : c.Beside c')
    (hitem : ∀ k, c'.store.item? k = if key = k then some item else c.store.item? k) :
    Alike (c'.touch key) (p.place key item) := by
  have hcap : p.capacity = c'.capacity := h.capacity.trans hb.capacity.symm
  have hranks := h.ranks.same hb.capacity hb.recency
  refine ⟨?_, ?_, ?_, fun k => ?_, ?_, ?_, ?_⟩
  · rw [Cache.capacity_touch]
    exact hcap
  · rw [Cache.now_touch, hb.now]
    exact h.now
  · exact Int.le_trans h.latest (Int.le_trans hb.latest (Cache.latest_le_touch c' key))
  · rw [Cache.item?_touch, hitem, h.item?, hranks.evicts, PlainCache.place_entries, hcap,
      Table.find?_drop (PlainCache.nodup_hot h.nodup key item), PlainCache.map_hot,
      PlainCache.find?_hot]
  · rw [PlainCache.place_entries, List.map_drop]
    exact (PlainCache.nodup_hot h.nodup key item).sublist (List.drop_sublist _ _)
  · rw [Cache.flights_touch, hb.flights]
    exact h.running
  · rw [PlainCache.place_entries, List.map_drop, PlainCache.map_hot, hcap]
    exact hranks.touch key

end Alike

/-! ## Deleting keys -/

namespace PlainCache

/-- Removing keys leaves the entries of all other keys, in their order. -/
theorem remove_entries (p : PlainCache K V) (keys : List K) :
    (p.remove keys).2 =
      { p with entries := p.entries.filter fun entry => !decide (entry.1 ∈ keys) } := by
  induction keys generalizing p with
  | nil =>
      show p = _
      simp
  | cons key rest ih =>
      show ((p.erase key).remove rest).2 = _
      rw [ih]
      have hfilter : (p.erase key).entries.filter (fun entry => !decide (entry.1 ∈ rest)) =
          p.entries.filter fun entry => !decide (entry.1 ∈ key :: rest) := by
        show (p.entries.filter _).filter _ = _
        rw [List.filter_filter]
        refine List.filter_congr fun entry _ => ?_
        simp only [List.mem_cons, Bool.decide_or, Bool.not_or]
        exact Bool.and_comm _ _
      rw [hfilter]
      rfl

/-- The value that a removal answers is the one that the store answers. -/
theorem remove_fst (p : PlainCache K V) (s : Store K V)
    (hitem : ∀ k, s.item? k = Table.find? k p.entries) (keys : List K) :
    (p.remove keys).1 = (s.deleteAll p.now keys).1.2 := by
  induction keys generalizing p s with
  | nil => rfl
  | cons key rest ih =>
      have hfind := hitem key
      have herase : ∀ k, Table.find? k (p.erase key).entries =
          if key = k then none else s.item? k := by
        intro k
        rw [hitem k]
        exact Table.find?_without key k p.entries
      cases hs : s.item? key with
      | none =>
          rw [hs] at hfind
          have hown : p.live? key = none := by
            show (Table.find? key p.entries).filter _ = none
            rw [← hfind]
            rfl
          have hrest := ih (p.erase key) s fun k => by
            rw [herase k]
            by_cases hk : key = k
            · rw [if_pos hk, ← hk, hs]
            · rw [if_neg hk]
          simp only [remove, Store.deleteAll, hs, hown, Option.map_none, Option.or_none]
          exact hrest
      | some item =>
          rw [hs] at hfind
          have hown : (p.live? key).map Item.value =
              if item.isExpiredAt p.now then none else some item.value := by
            show ((Table.find? key p.entries).filter _).map _ = _
            rw [← hfind]
            cases hexp : item.isExpiredAt p.now with
            | false => simp [Option.filter, hexp]
            | true => simp [Option.filter, hexp]
          have hrest : ((p.erase key).remove rest).1 =
              (Store.deleteAll { s with items := s.items.erase key } p.now rest).1.2 :=
            ih (p.erase key) { s with items := s.items.erase key } fun k => by
              rw [herase k]
              exact s.item?_delete key k
          simp only [remove, Store.deleteAll, hs, hown, hrest]

end PlainCache

namespace Alike

variable {c c' : Cache K V} {p : PlainCache K V}

/-- Removing keys removes them on both sides, with the same answer. -/
theorem remove (h : Alike c p) (keys : List K) :
    (c.remove keys).1 = (p.remove keys).1 ∧ Alike (c.remove keys).2 (p.remove keys).2 := by
  constructor
  · rw [p.remove_fst c.store h.item?, h.now, Cache.remove_eq]
  · rw [PlainCache.remove_entries]
    refine ⟨?_, ?_, ?_, fun k => ?_, Table.nodup_filter h.nodup _, ?_, ?_⟩
    · rw [Cache.capacity_remove]
      exact h.capacity
    · rw [Cache.now_remove]
      exact h.now
    · exact Int.le_trans h.latest (Cache.latest_le_remove c keys)
    · rw [Cache.item?_remove, h.item?, Table.find?_filter h.nodup]
      cases Table.find? k p.entries with
      | none => simp
      | some item => simp [Option.filter]
    · rw [Cache.flights_remove]
      exact h.running
    · -- only keys that are there leave the recency list, but there are no others in it
      have hranks := h.ranks.deletes keys
      have hkeys : (p.entries.map Prod.fst).filter (fun k => !decide (k ∈ c.deletes keys)) =
          (p.entries.filter fun entry => !decide (entry.1 ∈ keys)).map Prod.fst := by
        rw [List.filter_map]
        congr 1
        refine List.filter_congr fun entry hentry => ?_
        have hmem := h.mem_keys.mp (List.mem_map.mpr ⟨entry, hentry, rfl⟩)
        simp only [Function.comp, Cache.mem_deletes, hmem, and_true]
      rw [hkeys] at hranks
      exact hranks

end Alike

end ExpiringCache
