import ExpiringCache.Proofs.Janitor.Session
import ExpiringCache.Proofs.Order.Basic

/-! # What a sweep takes away

    Whatever the notices and the index say, right or wrong, a sweep does
    nothing to the entries but delete some that are expired, from the store
    and from the recency list alike.  Entries that stay keep their order, and
    neither hits nor misses are counted. -/

namespace ExpiringCache

variable {K V : Type} [DecidableEq K]

namespace Cache

/-- The second cache comes from the first by deleting entries that are
    expired at `now`. -/
structure Thins (now : Int) (c c' : Cache K V) : Prop where
  flights : c'.store.flights = c.store.flights
  unranked : c.recency = none → c'.recency = none
  hits : c'.counters.hits = c.counters.hits
  misses : c'.counters.misses = c.counters.misses
  item? : ∀ k, c'.store.item? k = c.store.item? k ∨
    c'.store.item? k = none ∧ c.store.live? now k = none
  order : ∀ capacity ks, c.Ordered capacity ks →
    ∃ ks', ks'.Sublist ks ∧ c'.Ordered capacity ks'

namespace Thins

variable {now : Int} {c c' c'' : Cache K V}

/-- Nothing is taken away from the entries. -/
theorem same (hcap : c'.capacity = c.capacity) (hstore : c'.store = c.store)
    (hrecency : c'.recency = c.recency) (hhits : c'.counters.hits = c.counters.hits)
    (hmisses : c'.counters.misses = c.counters.misses) : Thins now c c' where
  flights := congrArg Store.flights hstore
  unranked := hrecency.trans
  hits := hhits
  misses := hmisses
  item? := fun k => Or.inl (by rw [hstore])
  order := fun _ ks h =>
    ⟨ks, List.Sublist.refl ks, h.same hcap hrecency fun k => by rw [hstore]⟩

theorem trans (h : Thins now c c') (h' : Thins now c' c'') : Thins now c c'' where
  flights := h'.flights.trans h.flights
  unranked := fun hnone => h'.unranked (h.unranked hnone)
  hits := h'.hits.trans h.hits
  misses := h'.misses.trans h.misses
  item? := by
    intro k
    rcases h.item? k with hkept | ⟨hgone, hdead⟩
    · rcases h'.item? k with hkept' | ⟨hgone', hdead'⟩
      · exact Or.inl (hkept'.trans hkept)
      · refine Or.inr ⟨hgone', ?_⟩
        rw [Store.live?, hkept] at hdead'
        exact hdead'
    · rcases h'.item? k with hkept' | ⟨hgone', -⟩
      · exact Or.inr ⟨hkept'.trans hgone, hdead⟩
      · exact Or.inr ⟨hgone', hdead⟩
  order := by
    intro capacity ks hks
    obtain ⟨ks', hsub, hks'⟩ := h.order capacity ks hks
    obtain ⟨ks'', hsub', hks''⟩ := h'.order capacity ks' hks'
    exact ⟨ks'', hsub'.trans hsub, hks''⟩

/-- Taking a key out of both structures, if it has no live item. -/
theorem delete (key : K) (hdead : c.store.live? now key = none)
    (hcap : c'.capacity = c.capacity) (hflights : c'.store.flights = c.store.flights)
    (hrecency : c'.recency = c.recency.map fun recency => recency.remove key)
    (hhits : c'.counters.hits = c.counters.hits)
    (hmisses : c'.counters.misses = c.counters.misses)
    (hitem : ∀ k, c'.store.item? k = if key = k then none else c.store.item? k) :
    Thins now c c' where
  flights := hflights
  unranked := fun hnone => by rw [hrecency, hnone]; rfl
  hits := hhits
  misses := hmisses
  item? := by
    intro k
    rw [hitem k]
    split
    · rename_i hk
      exact Or.inr ⟨rfl, hk ▸ hdead⟩
    · exact Or.inl rfl
  order := fun _ ks h =>
    ⟨Recency.others key ks, List.filter_sublist, h.delete key hcap hrecency hitem⟩

/-- Who looks at `now` or later finds live what was live before. -/
theorem live? (h : Thins now c c') {later : Int} (hle : now ≤ later) (key : K) :
    c'.store.live? later key = c.store.live? later key := by
  rcases h.item? key with hkept | ⟨hgone, hdead⟩
  · rw [Store.live?, Store.live?, hkept]
  · cases hlive : c.store.live? later key with
    | none =>
        rw [Store.live?, hgone]
        rfl
    | some item =>
        rw [Store.live?_of_le hle hlive] at hdead
        cases hdead

/-- Where nothing is expired, nothing is taken away. -/
theorem item?_eq (h : Thins now c c')
    (hlive : ∀ k item, c.store.item? k = some item → now < item.expireAt) (k : K) :
    c'.store.item? k = c.store.item? k := by
  rcases h.item? k with hkept | ⟨hgone, hdead⟩
  · exact hkept
  · cases hitem : c.store.item? k with
    | none => exact hgone
    | some item =>
        rw [Store.live?_eq_some.mpr ⟨hitem, hlive k item hitem⟩] at hdead
        cases hdead

end Thins

variable {now : Int}

/-- A key that leaves the recency list alone has no item, so it has left both. -/
theorem Erodes.thins {n : Nat} {c c' : Cache K V} (h : c.Erodes now n c') : Thins now c c' := by
  induction h with
  | reindex c index => exact .same rfl rfl rfl rfl rfl
  | unlink c key hgone =>
      refine .delete key ?_ rfl rfl rfl rfl rfl (Store.item?_of_gone hgone)
      rw [Store.live?, hgone]
      rfl
  | expire c key hitem hexpired =>
      refine .delete key ?_ rfl rfl rfl rfl rfl fun k => c.store.item?_delete key k
      rw [Store.live?, hitem]
      simp [Option.filter, hexpired]
  | trans _ _ ih ih' => exact ih.trans ih'

/-- A sweep deletes expired entries and counts nothing but these. -/
theorem thins_sweepWith (order : List K → List K) (c : Cache K V) :
    Thins now c (c.sweepWith order now).2 := by
  obtain ⟨n, c', herodes, heq⟩ := erodes_sweepWith order c now
  have hdrained : Thins now c { c with notices := .empty } := .same rfl rfl rfl rfl rfl
  have hcounted : Thins now c' { c' with counters := c'.counters.swept n } :=
    .same rfl rfl rfl rfl rfl
  rw [heq]
  exact (hdrained.trans herodes.thins).trans hcounted

theorem thins_swept (c : Cache K V) (order : VisitingOrder K) :
    Thins c.now c (c.swept order) := by
  have hread : Thins c.now c c.read := .same rfl rfl rfl rfl rfl
  rw [swept]
  exact hread.trans (thins_sweepWith order.arrange c.read)

end Cache

end ExpiringCache
