import ExpiringCache.Proofs.Clearing.Renewed
import ExpiringCache.Proofs.Janitor.Converges
import ExpiringCache.Proofs.Janitor.Count
import ExpiringCache.Proofs.Order.Calls

/-! # Sweeping a cleared cache

    The notices from before a cache was cleared are worked off by the next
    sweep, and what they tell is out of date: their keys may be gone, or
    stored anew with other expiries.  But they have no effect.  Until that
    sweep, whatever was stored since has left a notice that comes after them,
    and a later notice of a key overrides an earlier one; a key of which
    there is no later notice is not stored.  So the sweep deletes the same
    entries as it would in a new cache, and from then on no old notice is
    left. -/

namespace ExpiringCache

variable {K V : Type} [DecidableEq K]

namespace Cache.Renewed

variable {base : Counters} {old : List (Notice K)} {c c' : Cache K V}

/-- A stored key has a notice on the one side if it has one on the other. -/
theorem isSome_lastNotice? (h : Renewed base old c c') (hfiled : c'.Filed c'.notices.waiting) {key : K}
    {item : Item V} (hitem : c'.store.item? key = some item) :
    (lastNotice? key c.notices.waiting).isSome =
      (lastNotice? key c'.notices.waiting).isSome := by
  rw [h.notices, lastNotice?_append]
  rcases h.unfiled with rfl | hindex
  · rw [lastNotice?, Option.or_none]
  · -- nothing is filed, so the key would have to be gone if there were no notice of it
    cases hlast : lastNotice? key c'.notices.waiting with
    | some told => rfl
    | none =>
        have hassigned := hfiled.settled key hlast
        rw [expiry?_eq_some hitem, hindex] at hassigned
        cases hassigned

/-- The same items stay when both are swept. -/
theorem survives_iff (h : Renewed base old c c') (hfiled : c'.Filed c'.notices.waiting) {now : Int}
    {key : K} {item : Item V} (hitem : c'.store.item? key = some item) :
    c.Survives now key item ↔ c'.Survives now key item := by
  rw [Survives, Survives, h.isSome_lastNotice? hfiled hitem]

/-- The stored keys in order of use are the same on both sides. -/
theorem ordered (h : Renewed base old c c') {capacity : Nat} (hagrees : c.Agrees capacity) :
    ∃ ks, c.Ordered capacity ks ∧ c'.Ordered capacity ks := by
  obtain ⟨ks, hordered⟩ := hagrees
  obtain ⟨ranked, hranks, hranks'⟩ := h.ranks
  have hranks'' : c'.Ranks ks := by
    rcases hordered.ranks with ⟨hzero, -⟩ | ⟨r, hpos, hsome, -, hlists⟩
    · rcases hranks' with hunranked | ⟨r', hpos', -⟩
      · exact Or.inl hunranked
      · exact absurd (h.capacity.symm.trans hzero) hpos'
    · rcases hranks with ⟨hzero, -⟩ | ⟨r', -, hsome', -, hlists'⟩
      · exact absurd hzero hpos
      · rw [hsome] at hsome'
        cases hsome'
        rw [← hlists.keys_eq, hlists'.keys_eq]
        exact hranks'
  have hstored : ∀ k, k ∈ ks ↔ (c'.store.item? k).isSome = true := by
    intro k
    rw [← h.store]
    exact hordered.stored k
  exact ⟨ks, hordered,
    ⟨h.capacity.symm.trans hordered.bounded, hordered.nodup, hstored, hranks'', hordered.room⟩⟩

/-- The old notices are reported, and no others but those that wait on both
    sides. -/
theorem notices_report (h : Renewed base old c c') (order order' : VisitingOrder K) :
    (c.report order).notices = old.length + (c'.report order').notices := by
  rw [(c.reports_swept order).notices, (c'.reports_swept order').notices, h.notices,
    List.length_append]

/-- Sweeps at the same time report the same number of expired entries, and
    afterwards no old notice is left. -/
theorem swept (h : Renewed base old c c') {capacity : Nat} (hagrees : c.Agrees capacity)
    (hfiled : c.Filed c.notices.waiting) (hfiled' : c'.Filed c'.notices.waiting)
    (hnow : earliestSweep ≤ c.now) (order order' : VisitingOrder K) :
    (c.report order).expired = (c'.report order').expired ∧
      Renewed base [] (c.swept order) (c'.swept order') := by
  obtain ⟨hquiet, -, hkeeps⟩ := filed_swept hfiled hnow order
  obtain ⟨hquiet', -, hkeeps'⟩ := filed_swept hfiled' (h.now ▸ hnow) order'
  have hreports := c.reports_swept order
  have hreports' := c'.reports_swept order'
  -- the same entries stay, in the same places
  have hitems : (c.swept order).store.items = (c'.swept order').store.items := by
    refine Table.eq_of_sublist hreports.entries (h.store ▸ hreports'.entries) fun key => ?_
    refine Option.ext fun item => ?_
    have hkept := hkeeps key item
    have hkept' := hkeeps' key item
    rw [h.store] at hkept
    rw [← h.now] at hkept'
    exact hkept.trans ((and_congr_right fun hitem => h.survives_iff hfiled' hitem).trans
      hkept'.symm)
  have hstore : (c.swept order).store = (c'.swept order').store := by
    refine Store.eq_of_parts hitems ?_
    rw [(c.thins_swept order).flights, (c'.thins_swept order').flights, h.store]
  have hexpired : (c.report order).expired = (c'.report order').expired := by
    have hsize := hreports.size
    have hsize' := hreports'.size
    rw [size, size, hstore, h.store] at hsize
    rw [size, size] at hsize'
    omega
  -- and the keys that stay keep their order
  obtain ⟨ks, hordered, hordered'⟩ := h.ordered hagrees
  obtain ⟨left, hleft, hswept⟩ := (c.thins_swept order).order capacity ks hordered
  obtain ⟨left', hleft', hswept'⟩ := (c'.thins_swept order').order capacity ks hordered'
  have hlefts : left = left' := by
    refine ExpiringCache.eq_of_sublist hordered.nodup hleft hleft' fun key => ?_
    rw [hswept.stored, hswept'.stored, hstore]
  subst hlefts
  refine ⟨hexpired, ?_, ?_, hstore, ⟨left, hswept.ranks, hswept'.ranks⟩, ?_, ?_, Or.inl rfl⟩
  · rw [hswept.bounded, hswept'.bounded]
  · show (c.swept order).clock.now = (c'.swept order').clock.now
    rw [clock_swept, clock_swept, Clock.now_read, Clock.now_read]
    exact h.now
  · rw [hreports.counters, hreports'.counters, hexpired, h.counters, Counters.swept,
      Counters.plus, Counters.plus, Counters.swept, Nat.add_assoc]
  · rw [hquiet, hquiet', List.nil_append]

end Cache.Renewed

end ExpiringCache
