import ExpiringCache.Proofs.Janitor.Count
import ExpiringCache.Proofs.Order.Calls
import Mathlib.Data.List.Basic

/-! # What becomes of entries

    A `Ledger` is kept along the actions of a cache.  It says how many entries
    came into the store under keys that had none, and in which of four ways
    how many went out: they fell off the recency list, a sweep deleted them,
    they were removed, or the cache was cleared.  Each of these numbers is
    read off the keys that are stored before and after an action, and none of
    the counters has a part in it.

    As long as the store and the recency list agree, each action adds to the
    counters what it adds to the ledger, and no entry is lost track of. -/

namespace ExpiringCache

variable {K V : Type}

/-- What became of entries. -/
structure Ledger where
  inserted : Nat := 0
  evicted : Nat := 0
  swept : Nat := 0
  removed : Nat := 0
  cleared : Nat := 0
  deriving DecidableEq, Repr

/-- Two spans of time together. -/
def Ledger.plus (l m : Ledger) : Ledger where
  inserted := l.inserted + m.inserted
  evicted := l.evicted + m.evicted
  swept := l.swept + m.swept
  removed := l.removed + m.removed
  cleared := l.cleared + m.cleared

variable [DecidableEq K]

namespace Cache

/-! ## Keys that are lost -/

/-- The number of keys that are stored in the first cache and not in the
    second. -/
def lost (c c' : Cache K V) : Nat := (c.keys.filter fun key => !c'.store.contains key).length

/-- What one action does to the entries.  Where an item is stored first, the
    keys that fall off are among those that are stored then. -/
def book (c : Cache K V) : Action K V → Ledger
  | .write key item =>
      let stored := { c with store := c.store.set key item }
      { inserted := stored.lost c, evicted := stored.lost (Action.act c (.write key item)) }
  | .rewrite key item =>
      let stored := { c with store := c.store.set key item }
      { inserted := stored.lost c, evicted := stored.lost (Action.act c (.rewrite key item)) }
  | .use key => { evicted := c.lost (c.touch key) }
  | .remove keys => { removed := c.lost (c.remove keys).2 }
  | .clear => { cleared := c.lost c.clear }
  | .sweep order => { swept := c.lost (c.swept order) }
  | _ => {}

/-- What several actions do to the entries. -/
def bookAll (c : Cache K V) : List (Action K V) → Ledger
  | [] => {}
  | action :: rest => (c.book action).plus ((action.act c).bookAll rest)

theorem mem_keys {c : Cache K V} {key : K} :
    key ∈ c.keys ↔ (c.store.item? key).isSome = true :=
  Table.contains_iff.symm

/-- If only some of the stored keys stay, the others are lost. -/
theorem size_eq_add_lost {c c' : Cache K V}
    (h : ∀ key, (c'.store.item? key).isSome = true → (c.store.item? key).isSome = true) :
    c.size = c'.size + c.lost c' := by
  have hstay : (c.keys.filter fun key => c'.store.contains key).Perm c'.keys := by
    refine (List.perm_ext_iff_of_nodup (c.store.items.nodup.filter _) c'.store.items.nodup).mpr
      fun key => ?_
    rw [List.mem_filter]
    constructor
    · rintro ⟨-, hstays⟩
      exact mem_keys.mpr hstays
    · intro hkey
      have hstays := mem_keys.mp hkey
      exact ⟨mem_keys.mpr (h key hstays), hstays⟩
  have hparts := c.keys.length_eq_length_filter_add fun key => c'.store.contains key
  have hkeys : ∀ d : Cache K V, d.size = d.keys.length := fun d => (List.length_map _).symm
  rw [hkeys, hkeys, hparts, hstay.length_eq, lost]

/-! ## What falls off -/

/-- The keys that fall off when a key is used are lost, each of them once, if
    just this key and the ordered ones are stored. -/
theorem Ordered.evicts_eq_lost {c c' : Cache K V} {capacity : Nat} {ks : List K}
    (h : c.Ordered capacity ks) (key : K) (hcap : c'.capacity = c.capacity)
    (hrecency : c'.recency = c.recency)
    (hitem : ∀ k, (c'.store.item? k).isSome = true ↔ k = key ∨ k ∈ ks) :
    c'.size = (c'.touch key).size + c'.lost (c'.touch key) ∧
      (c'.evicts key).length = c'.lost (c'.touch key) := by
  have hlost : c'.size = (c'.touch key).size + c'.lost (c'.touch key) := by
    refine size_eq_add_lost fun k hk => ?_
    rw [item?_touch] at hk
    split at hk
    · exact absurd hk Bool.false_ne_true
    · exact hk
  -- before the others fall off, there are as many keys as the hot list has
  have hsize : c'.size = (Recency.others key ks ++ [key]).length := by
    have hkeys : c'.keys.Perm (Recency.others key ks ++ [key]) := by
      refine (List.perm_ext_iff_of_nodup c'.store.items.nodup
        (Recency.nodup_others_append h.nodup key)).mpr fun k => ?_
      rw [List.mem_append, List.mem_singleton, Recency.mem_others]
      refine (Cache.mem_keys.trans (hitem k)).trans ?_
      by_cases hk : k = key
      · simp [hk]
      · simp [hk]
    have hlength := hkeys.length_eq
    rw [keys, Store.keys, Table.keys, List.length_map] at hlength
    exact hlength
  have hafter := (h.use key hcap hrecency hitem).size_eq
  have hevicts := (h.ranks.same hcap hrecency).evicts key
  rw [Recency.used, List.length_drop] at hafter
  have hfalls : (c'.evicts key).length =
      min (surplus c'.capacity ((Recency.others key ks).length + 1))
        (Recency.others key ks ++ [key]).length := by
    rw [hevicts, List.length_take]
  rw [hcap, h.bounded] at hfalls
  exact ⟨hlost, by omega⟩

/-! ## Counters and entries -/

/-- What was counted from one cache to the other, where `looked` tells which
    look-ups found their key, and what became of the entries. -/
structure Books (c : Cache K V) (looked : List Bool) (l : Ledger) (c' : Cache K V) : Prop where
  hits : c'.counters.hits = c.counters.hits + looked.count true
  misses : c'.counters.misses = c.counters.misses + looked.count false
  evictions : c'.counters.evictions = c.counters.evictions + l.evicted
  expired : c'.counters.expired = c.counters.expired + l.swept
  balance : c.size + l.inserted = c'.size + l.evicted + l.swept + l.removed + l.cleared

namespace Books

variable {c c' c'' : Cache K V} {looked more : List Bool} {l m : Ledger}

omit [DecidableEq K] in
/-- Where nothing is looked up. -/
theorem silent (hcounters : c'.counters = (c.counters.evicted l.evicted).swept l.swept)
    (hbalance : c.size + l.inserted =
      c'.size + l.evicted + l.swept + l.removed + l.cleared) : Books c [] l c' where
  hits := by
    rw [hcounters]
    rfl
  misses := by
    rw [hcounters]
    rfl
  evictions := by
    rw [hcounters]
    rfl
  expired := by
    rw [hcounters]
    rfl
  balance := hbalance

omit [DecidableEq K] in
theorem trans (h : Books c looked l c') (h' : Books c' more m c'') :
    Books c (looked ++ more) (l.plus m) c'' where
  hits := by
    rw [h'.hits, h.hits, List.count_append, Nat.add_assoc]
  misses := by
    rw [h'.misses, h.misses, List.count_append, Nat.add_assoc]
  evictions := by
    rw [h'.evictions, h.evictions, Nat.add_assoc, Ledger.plus]
  expired := by
    rw [h'.expired, h.expired, Nat.add_assoc, Ledger.plus]
  balance := by
    have hfirst := h.balance
    have hthen := h'.balance
    simp only [Ledger.plus]
    omega

end Books

theorem counters_touch (c : Cache K V) (key : K) :
    (c.touch key).counters = c.counters.evicted (c.evicts key).length := by
  rw [touch_eq]

theorem counters_remove (c : Cache K V) (keys : List K) :
    (c.remove keys).2.counters = c.counters := by
  rw [remove_eq]

/-- Storing an item and marking its key as used. -/
theorem Ordered.books_stored {c d : Cache K V} {capacity : Nat} {ks : List K}
    (h : c.Ordered capacity ks) (key : K) (item : Item V) (hcap : d.capacity = c.capacity)
    (hrecency : d.recency = c.recency) (hstore : d.store = c.store.set key item)
    (hcounters : d.counters = c.counters) :
    Books c [] { inserted := d.lost c, evicted := d.lost (d.touch key) } (d.touch key) := by
  have hitem : ∀ k, (d.store.item? k).isSome = true ↔ k = key ∨ k ∈ ks := by
    rw [hstore]
    exact h.isSome_set key item
  obtain ⟨hlost, hevicts⟩ := h.evicts_eq_lost key hcap hrecency hitem
  have hinserted : d.size = c.size + d.lost c := by
    refine size_eq_add_lost fun k hk => ?_
    exact (hitem k).mpr (Or.inr ((h.stored k).mpr hk))
  refine .silent ?_ ?_
  · rw [counters_touch, hcounters, hevicts]
    rfl
  · simp only
    omega

/-- Each action that can be carried out adds to the counters what it adds to the
    ledger. -/
theorem books_act {c : Cache K V} {capacity : Nat} (h : c.Agrees capacity) {action : Action K V}
    (hready : action.Ready c) :
    Books c action.lookup?.toList (c.book action) (action.act c) := by
  obtain ⟨ks, hordered⟩ := h
  cases action with
  | read => exact .silent rfl rfl
  | hit => exact ⟨rfl, rfl, rfl, rfl, rfl⟩
  | miss => exact ⟨rfl, rfl, rfl, rfl, rfl⟩
  | enter key => exact .silent rfl rfl
  | leave key => exact .silent rfl rfl
  | write key item =>
      exact hordered.books_stored key item
        (d := { c with
          store := c.store.set key item
          notices := c.notices.push key item.expireAt }) rfl rfl rfl rfl
  | rewrite key item =>
      exact hordered.books_stored key item
        (d := { c with store := c.store.set key item }) rfl rfl rfl rfl
  | use key =>
      have hkey : key ∈ ks := (hordered.stored key).mpr hready
      have hitem : ∀ k, (c.store.item? k).isSome = true ↔ k = key ∨ k ∈ ks := by
        intro k
        rw [← hordered.stored k]
        constructor
        · exact Or.inr
        · rintro (rfl | hk)
          · exact hkey
          · exact hk
      obtain ⟨hlost, hevicts⟩ := hordered.evicts_eq_lost key rfl rfl hitem
      refine .silent ?_ hlost
      show (c.touch key).counters = _
      rw [counters_touch, hevicts]
      rfl
  | remove keys =>
      have hlost : c.size = (c.remove keys).2.size + c.lost (c.remove keys).2 := by
        refine size_eq_add_lost fun k hk => ?_
        rw [item?_remove] at hk
        split at hk
        · exact absurd hk Bool.false_ne_true
        · exact hk
      exact .silent (counters_remove c keys) hlost
  | clear =>
      have hlost : c.size = c.clear.size + c.lost c.clear :=
        size_eq_add_lost fun k hk => absurd hk Bool.false_ne_true
      exact .silent rfl hlost
  | close => exact .silent rfl rfl
  | sweep order =>
      have hreports := c.reports_swept order
      have hlost : c.size = (c.swept order).size + c.lost (c.swept order) := by
        refine size_eq_add_lost fun k hk => ?_
        rcases (c.thins_swept order).item? k with hsame | ⟨hgone, -⟩
        · rwa [hsame] at hk
        · rw [hgone] at hk
          exact absurd hk Bool.false_ne_true
      have hexpired : (c.report order).expired = c.lost (c.swept order) := by
        have hsize := hreports.size
        omega
      refine .silent ?_ hlost
      show (c.swept order).counters = _
      rw [hreports.counters, hexpired]
      rfl
  | setWall wall => exact .silent rfl rfl

/-- So do all actions of a part of a call, one after another. -/
theorem Performs.books {c c' : Cache K V} {actions : List (Action K V)} (h : c.Performs actions c')
    {capacity : Nat} (hagrees : c.Agrees capacity) :
    Books c (actions.filterMap Action.lookup?) (c.bookAll actions) c' := by
  induction h with
  | nil c => exact .silent rfl rfl
  | @cons c c' action rest hready h ih =>
      have hrest := ih (hagrees.act hready)
      have hlooked : (action :: rest).filterMap Action.lookup? =
          action.lookup?.toList ++ rest.filterMap Action.lookup? := by
        rw [List.filterMap_cons]
        cases action.lookup? with
        | none => rfl
        | some found => rfl
      rw [hlooked]
      exact (books_act hagrees hready).trans hrest

end Cache

end ExpiringCache
