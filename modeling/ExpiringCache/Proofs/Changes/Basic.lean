import ExpiringCache.Proofs.PlainCache.Alike

/-! # What calls and sweeps are made of

    Every part of every call, and every sweep, is a sequence of a few
    elementary changes: the clock is read, an item is stored, a live key gets
    another item, a key is marked as used, keys are deleted from the store
    and from the recency list, all is cleared.  An invariant that each of
    these keeps is kept by whatever happens to a cache.

    `Changes P` says so of two caches, where `P` tells which keys may be
    stored with which expiries, unless in place of a live item. -/

namespace ExpiringCache

variable {K V : Type} [DecidableEq K]

namespace Cache

/-- The second cache comes from the first by elementary changes. -/
inductive Changes (P : K → Int → Prop) (c : Cache K V) : Cache K V → Prop where
  | refl : Changes P c c
  -- whatever else there is beside the items, the recency list and the clock
  | beside {d d' : Cache K V} (h : Changes P c d) (hcap : d'.capacity = d.capacity)
      (hitem : ∀ k, d'.store.item? k = d.store.item? k) (hrecency : d'.recency = d.recency)
      (hclock : d'.clock = d.clock) : Changes P c d'
  | read {d : Cache K V} (h : Changes P c d) : Changes P c d.read
  | store {d : Cache K V} (h : Changes P c d) (key : K) (item : Item V)
      (hP : P key item.expireAt) : Changes P c { d with store := d.store.set key item }
  | change {d : Cache K V} (h : Changes P c d) {key : K} {old : Item V}
      (hlive : d.store.live? d.now key = some old) (item : Item V)
      (hexpire : item.expireAt = old.expireAt ∨
        ∃ ttl, item.expireAt = ExpiringCache.expiryFrom d.now ttl) :
      Changes P c { d with store := d.store.set key item }
  | touch {d : Cache K V} (h : Changes P c d) (key : K) : Changes P c (d.touch key)
  | remove {d : Cache K V} (h : Changes P c d) (keys : List K) : Changes P c (d.remove keys).2
  -- a sweep deletes a key that is expired, or already gone
  | drop {d d' : Cache K V} (h : Changes P c d) (key : K) (hcap : d'.capacity = d.capacity)
      (hitem : ∀ k, d'.store.item? k = if key = k then none else d.store.item? k)
      (hrecency : d'.recency = d.recency.map fun recency => recency.remove key)
      (hclock : d'.clock = d.clock) : Changes P c d'
  | clear {d : Cache K V} (h : Changes P c d) : Changes P c d.clear

namespace Changes

variable {P : K → Int → Prop} {c d e : Cache K V}

/-- Changes after changes are changes. -/
theorem trans (h : Changes P c d) (h' : Changes P d e) : Changes P c e := by
  induction h' with
  | refl => exact h
  | beside _ hcap hitem hrecency hclock ih => exact ih.beside hcap hitem hrecency hclock
  | read _ ih => exact ih.read
  | store _ key item hP ih => exact ih.store key item hP
  | change _ hlive item hexpire ih => exact ih.change hlive item hexpire
  | touch _ key ih => exact ih.touch key
  | remove _ keys ih => exact ih.remove keys
  | drop _ key hcap hitem hrecency hclock ih => exact ih.drop key hcap hitem hrecency hclock
  | clear _ ih => exact ih.clear

/-! ## The clock -/

/-- The cache goes by the same time, and no reading is taken back. -/
theorem clock (h : Changes P c d) : d.now = c.now ∧ c.clock.latest ≤ d.clock.latest := by
  induction h with
  | refl => exact ⟨rfl, Int.le_refl _⟩
  | beside _ _ _ _ hclock ih => rwa [now, hclock]
  | @read d _ ih => exact ⟨(now_read d).trans ih.1, Int.le_trans ih.2 d.latest_le_read⟩
  | store _ _ _ _ ih => exact ih
  | change _ _ _ _ ih => exact ih
  | @touch d _ key ih =>
      exact ⟨(now_touch d key).trans ih.1, Int.le_trans ih.2 (latest_le_touch d key)⟩
  | @remove d _ keys ih =>
      exact ⟨(now_remove d keys).trans ih.1, Int.le_trans ih.2 (latest_le_remove d keys)⟩
  | drop _ _ _ _ _ hclock ih => rwa [now, hclock]
  | clear _ ih => exact ih

/-- Changes do not move the clock. -/
theorem now (h : Changes P c d) : d.now = c.now := h.clock.1

/-- Changes do not take the clock back. -/
theorem latest (h : Changes P c d) : c.clock.latest ≤ d.clock.latest := h.clock.2

/-! ## Keys without a live item -/

/-- A key that may not be stored is not live at any instant, up to now, at
    which it was not. -/
theorem dead (h : Changes P c d) {key : K} (hkey : ∀ expireAt, ¬P key expireAt) {time : Int}
    (hpast : time ≤ c.now) (hdead : c.store.live? time key = none) :
    d.store.live? time key = none := by
  have hgone : ∀ {d d' : Cache K V}, d.store.live? time key = none →
      d'.store.item? key = d.store.item? key ∨ d'.store.item? key = none →
        d'.store.live? time key = none := by
    rintro d d' hd (hsame | hnone)
    · rwa [Store.live?, hsame]
    · rw [Store.live?, hnone]
      rfl
  induction h with
  | refl => exact hdead
  | beside _ _ hitem _ _ ih => exact hgone ih (Or.inl (hitem key))
  | read _ ih => exact ih
  | store _ k item hP ih =>
      refine hgone ih (Or.inl ?_)
      rw [Store.item?_set, if_neg fun e => hkey _ (e ▸ hP)]
  | @change d h k old hlive item _ ih =>
      -- an item that is live now was live then
      by_cases hk : k = key
      · subst hk
        have hpast' : time ≤ d.now := h.now ▸ hpast
        rw [Store.live?_of_le hpast' hlive] at ih
        cases ih
      · refine hgone ih (Or.inl ?_)
        rw [Store.item?_set, if_neg hk]
  | touch _ k ih =>
      refine hgone ih ?_
      rw [item?_touch]
      split
      · exact Or.inr rfl
      · exact Or.inl rfl
  | remove _ keys ih =>
      refine hgone ih ?_
      rw [item?_remove]
      split
      · exact Or.inr rfl
      · exact Or.inl rfl
  | drop _ k _ hitem _ _ ih =>
      refine hgone ih ?_
      rw [hitem]
      split
      · exact Or.inr rfl
      · exact Or.inl rfl
  | clear _ ih => exact hgone ih (Or.inr rfl)

end Changes

/-! ## The expiries of items -/

/-- All stored items, live or expired, have expiries in `R`. -/
def Expiries (R : Int → Prop) (c : Cache K V) : Prop :=
  ∀ key item, c.store.item? key = some item → R item.expireAt

namespace Changes

variable {P : K → Int → Prop} {c d e : Cache K V}

/-- Expiries are in `R` if those are with which items may be stored, and those
    of lifetimes that start now. -/
theorem expiries (h : Changes P c d) {R : Int → Prop}
    (hP : ∀ key expireAt, P key expireAt → R expireAt)
    (hR : ∀ ttl, R (ExpiringCache.expiryFrom c.now ttl)) (hc : c.Expiries R) : d.Expiries R := by
  have hless : ∀ {d d' : Cache K V} {p : K → Prop} [DecidablePred p], d.Expiries R →
      (∀ k, d'.store.item? k = if p k then none else d.store.item? k) → d'.Expiries R := by
    intro d d' p _ hd hitem k item hk
    rw [hitem] at hk
    split at hk
    · cases hk
    · exact hd k item hk
  have hset : ∀ {d : Cache K V} {key : K} {item : Item V}, d.Expiries R → R item.expireAt →
      Expiries R { d with store := d.store.set key item } := by
    intro d key item hd hitem k item' hk
    rw [Store.item?_set] at hk
    split at hk
    · cases hk
      exact hitem
    · exact hd k item' hk
  induction h with
  | refl => exact hc
  | beside _ _ hitem _ _ ih => exact fun k item hk => ih k item (hitem k ▸ hk)
  | read _ ih => exact ih
  | store _ key item hkey ih => exact hset ih (hP key _ hkey)
  | change h hlive item hexpire ih =>
      refine hset ih ?_
      rcases hexpire with hsame | ⟨ttl, hfrom⟩
      · rw [hsame]
        exact ih _ _ (Store.live?_eq_some.mp hlive).1
      · rw [hfrom, h.now]
        exact hR ttl
  | touch _ key ih => exact hless ih (item?_touch _ key)
  | remove _ keys ih => exact hless ih (item?_remove _ keys)
  | drop _ key _ hitem _ _ ih => exact hless ih hitem
  | clear _ ih =>
      intro k item hk
      cases hk

end Changes

/-! ## The recency list -/

/-- The recency list, if there is one, holds some keys in good order. -/
def Ranked (c : Cache K V) : Prop := ∃ ks, c.Ranks ks

theorem ranked_new (capacity : Nat) (clock : Clock) : (new capacity clock : Cache K V).Ranked :=
  ⟨[], ranks_new capacity clock⟩

namespace Ranked

variable {c d : Cache K V}

/-- Nothing but the list itself matters. -/
theorem same (h : c.Ranked) (hcap : d.capacity = c.capacity) (hrecency : d.recency = c.recency) :
    d.Ranked := by
  obtain ⟨ks, hranks⟩ := h
  exact ⟨ks, hranks.same hcap hrecency⟩

/-- To touch a key keeps the recency list in good order. -/
theorem touch (h : c.Ranked) (key : K) : (c.touch key).Ranked := by
  obtain ⟨ks, hranks⟩ := h
  exact ⟨_, hranks.touch key⟩

/-- To remove keys keeps the recency list in good order. -/
theorem remove (h : c.Ranked) (keys : List K) : (c.remove keys).2.Ranked := by
  obtain ⟨ks, hranks⟩ := h
  exact ⟨_, hranks.deletes keys⟩

/-- So does taking one key out of it. -/
theorem drop (h : c.Ranked) (key : K) (hcap : d.capacity = c.capacity)
    (hrecency : d.recency = c.recency.map fun recency => recency.remove key) : d.Ranked := by
  obtain ⟨ks, hranks⟩ := h
  exact ⟨_, hranks.remove key hcap hrecency⟩

theorem clear (h : c.Ranked) : c.clear.Ranked := by
  obtain ⟨ks, hranks⟩ := h
  exact ⟨[], hranks.clear⟩

end Ranked

/-- Any changes keep the recency list in good order. -/
theorem Changes.ranked {P : K → Int → Prop} {c d : Cache K V} (h : Changes P c d)
    (hc : c.Ranked) : d.Ranked := by
  induction h with
  | refl => exact hc
  | beside _ hcap _ hrecency _ ih => exact ih.same hcap hrecency
  | read _ ih => exact ih.same rfl rfl
  | store _ _ _ _ ih => exact ih.same rfl rfl
  | change _ _ _ _ ih => exact ih.same rfl rfl
  | touch _ key ih => exact ih.touch key
  | remove _ keys ih => exact ih.remove keys
  | drop _ key hcap _ hrecency _ ih => exact ih.drop key hcap hrecency
  | clear _ ih => exact ih.clear

/-- No change alters the capacity. -/
theorem Changes.capacity {P : K → Int → Prop} {c d : Cache K V} (h : Changes P c d) :
    d.capacity = c.capacity := by
  induction h with
  | refl => rfl
  | beside _ hcap _ _ _ ih => exact hcap.trans ih
  | read _ ih => exact ih
  | store _ _ _ _ ih => exact ih
  | change _ _ _ _ ih => exact ih
  | touch _ key ih => exact (capacity_touch _ key).trans ih
  | remove _ keys ih => exact (capacity_remove _ keys).trans ih
  | drop _ _ hcap _ _ _ ih => exact hcap.trans ih
  | clear _ ih => exact ih

end Cache

end ExpiringCache
