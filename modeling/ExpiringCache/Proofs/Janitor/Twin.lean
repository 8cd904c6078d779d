import ExpiringCache.Proofs.Order.Sweep
import ExpiringCache.Proofs.Session.Parallel

/-! # Caches that differ in expired entries only

    Two unbounded caches are the `Same` to their callers if no look-up at any
    time to come can tell them apart: the same entries are live, the same
    flights are in progress, and as many hits and misses were counted.  What
    expired entries they still store, what notices wait and what the index
    says may differ.

    Caches that are the same and show the same time are twins.  Every step
    of a call that is taken on twins leaves twins, so every part of every
    call gives the same result on both; only a snapshot shows the expired
    entries. -/

namespace ExpiringCache

variable {K V : Type}

variable [DecidableEq K]

/-! ## What removing keys answers -/

/-- What is found of the key removed first is answered unless a later one has
    a value. -/
theorem Store.deleteAll_cons (s : Store K V) (now : Int) (key : K) (rest : List K) :
    ∃ s' : Store K V, (s.deleteAll now (key :: rest)).1.2 =
        (s'.deleteAll now rest).1.2.or ((s.live? now key).map Item.value) ∧
      ∀ k, s'.live? now k = if key = k then none else s.live? now k := by
  cases hitem : s.item? key with
  | none =>
      have hlive : s.live? now key = none := by
        rw [live?, hitem]
        rfl
      refine ⟨s, ?_, fun k => ?_⟩
      · simp only [deleteAll, hitem, hlive, Option.map_none, Option.or_none]
      · split
        · rename_i hk
          rw [← hk, hlive]
        · rfl
  | some item =>
      refine ⟨(s.delete key).2, ?_, fun k => ?_⟩
      · have hown : (s.live? now key).map Item.value =
            if item.isExpiredAt now then none else some item.value := by
          rw [live?, hitem]
          cases hexp : item.isExpiredAt now with
          | false => simp [Option.filter, hexp]
          | true => simp [Option.filter, hexp]
        simp only [deleteAll, hitem, hown]
        rfl
      · rw [live?, item?_delete]
        split
        · rfl
        · rfl

/-- The answer depends on what is live, and on nothing else. -/
theorem Store.deleteAll_last {s s' : Store K V} {now : Int} (keys : List K)
    (h : ∀ k, s.live? now k = s'.live? now k) :
    (s.deleteAll now keys).1.2 = (s'.deleteAll now keys).1.2 := by
  induction keys generalizing s s' with
  | nil => rfl
  | cons key rest ih =>
      obtain ⟨t, heq, hlive⟩ := s.deleteAll_cons now key rest
      obtain ⟨t', heq', hlive'⟩ := s'.deleteAll_cons now key rest
      have hrest : (t.deleteAll now rest).1.2 = (t'.deleteAll now rest).1.2 :=
        ih fun k => by rw [hlive, hlive', h k]
      rw [heq, heq', h key, hrest]

namespace Cache

/-! ## The relations -/

/-- Nobody who looks at live entries will ever tell the two caches apart. -/
structure Same (c c' : Cache K V) : Prop where
  unranked : c.recency = none
  unranked' : c'.recency = none
  flights : c.store.flights = c'.store.flights
  live? : ∀ time, c.clock.latest ≤ time → c'.clock.latest ≤ time →
    ∀ key, c.store.live? time key = c'.store.live? time key
  hits : c.counters.hits = c'.counters.hits
  misses : c.counters.misses = c'.counters.misses

/-- The caches are the same and show the same time. -/
structure Twin (c c' : Cache K V) : Prop extends Same c c' where
  now : c.now = c'.now

namespace Same

variable {c c' : Cache K V}

theorem symm (h : Same c c') : Same c' c where
  unranked := h.unranked'
  unranked' := h.unranked
  flights := h.flights.symm
  live? := fun time hle hle' key => (h.live? time hle' hle key).symm
  hits := h.hits.symm
  misses := h.misses.symm

/-- A sweep changes nothing for those who look after it. -/
theorem swept (h : Same c c') (order : VisitingOrder K) : Same (c.swept order) c' := by
  have hthins := c.thins_swept order
  refine ⟨hthins.unranked h.unranked, h.unranked', hthins.flights.trans h.flights,
    fun time hle hle' key => ?_, hthins.hits.trans h.hits, hthins.misses.trans h.misses⟩
  have hnow : c.now ≤ time := by
    rw [clock_swept] at hle
    exact hle
  have hlatest : c.clock.latest ≤ c.now := Int.le_max_right _ _
  rw [hthins.live? hnow, h.live? time (Int.le_trans hlatest hnow) hle']

theorem setWall (h : Same c c') (wall : Int) :
    Same { c with clock := c.clock.setTo wall } c' :=
  ⟨h.unranked, h.unranked', h.flights, h.live?, h.hits, h.misses⟩

end Same

theorem same_new (clock clock' : Clock) :
    Same (.new 0 clock : Cache K V) (.new 0 clock') :=
  ⟨rfl, rfl, rfl, fun _ _ _ _ => rfl, rfl, rfl⟩

namespace Twin

variable {c c' : Cache K V}

/-! ## Reading -/

/-- Twins see the same entries live. -/
theorem live_eq (h : Twin c c') (key : K) :
    c.store.live? c.now key = c'.store.live? c'.now key := by
  have hle : c.clock.latest ≤ c.now := Int.le_max_right _ _
  have hle' : c'.clock.latest ≤ c'.now := Int.le_max_right _ _
  rw [← h.now] at hle' ⊢
  exact h.live? c.now hle hle' key

theorem read (h : Twin c c') : Twin c.read c'.read where
  unranked := h.unranked
  unranked' := h.unranked'
  flights := h.flights
  live? := fun time hle hle' key =>
    h.live? time (Int.le_trans c.latest_le_read hle) (Int.le_trans c'.latest_le_read hle') key
  hits := h.hits
  misses := h.misses
  now := by rw [now_read, now_read, h.now]

theorem hit (h : Twin c c') :
    Twin { c with counters := c.counters.hit } { c' with counters := c'.counters.hit } :=
  ⟨⟨h.unranked, h.unranked', h.flights, h.live?, congrArg (· + 1) h.hits, h.misses⟩, h.now⟩

theorem miss (h : Twin c c') :
    Twin { c with counters := c.counters.miss } { c' with counters := c'.counters.miss } :=
  ⟨⟨h.unranked, h.unranked', h.flights, h.live?, h.hits, congrArg (· + 1) h.misses⟩, h.now⟩

theorem touch (h : Twin c c') (key : K) : Twin (c.touch key) (c'.touch key) := by
  rw [touch_of_unranked h.unranked, touch_of_unranked h.unranked']
  exact h

/-! ## Writing -/

/-- The same item is stored on both sides, in place of whatever is there. -/
theorem set (h : Twin c c') (key : K) (item : Item V) :
    Twin { c with store := c.store.set key item }
      { c' with store := c'.store.set key item } where
  unranked := h.unranked
  unranked' := h.unranked'
  flights := h.flights
  live? := by
    intro time hle hle' k
    show ((c.store.set key item).item? k).filter _ = ((c'.store.set key item).item? k).filter _
    rw [Store.item?_set, Store.item?_set]
    split
    · rfl
    · exact h.live? time hle hle' k
  hits := h.hits
  misses := h.misses
  now := h.now

/-- An expired entry that only one side still stores has no value to be
    answered. -/
theorem remove (h : Twin c c') (keys : List K) : Both Twin (c.remove keys) (c'.remove keys) := by
  constructor
  · rw [remove_eq, remove_eq, ← h.now]
    refine Store.deleteAll_last keys fun k => ?_
    have hlive := h.live_eq k
    rwa [← h.now] at hlive
  · refine ⟨⟨?_, ?_, ?_, fun time hle hle' k => ?_, ?_, ?_⟩, ?_⟩
    · rw [remove_eq, h.unranked]
      rfl
    · rw [remove_eq, h.unranked']
      rfl
    · rw [flights_remove, flights_remove, h.flights]
    · rw [Store.live?, Store.live?, item?_remove, item?_remove]
      split
      · rfl
      · exact h.live? time (Int.le_trans (latest_le_remove c keys) hle)
          (Int.le_trans (latest_le_remove c' keys) hle') k
    · rw [remove_eq, remove_eq]
      exact h.hits
    · rw [remove_eq, remove_eq]
      exact h.misses
    · rw [now_remove, now_remove, h.now]

theorem clear (h : Twin c c') : Twin c.clear c'.clear where
  unranked := congrArg (Option.map Recency.clear) h.unranked
  unranked' := congrArg (Option.map Recency.clear) h.unranked'
  flights := h.flights
  live? := fun _ _ _ _ => rfl
  hits := h.hits
  misses := h.misses
  now := h.now

theorem flown (h : Twin c c') (fly : Flights K → Flights K) :
    Twin { c with store := { c.store with flights := fly c.store.flights } }
      { c' with store := { c'.store with flights := fly c'.store.flights } } :=
  ⟨⟨h.unranked, h.unranked', congrArg fly h.flights, h.live?, h.hits, h.misses⟩, h.now⟩

end Twin

/-- Every step that is taken on twins leaves twins. -/
theorem parallel_twin : Parallel (Twin : Cache K V → Cache K V → Prop) where
  now := Twin.now
  flights := fun h => h.flights
  live? := Twin.live_eq
  read := Twin.read
  hit := Twin.hit
  miss := Twin.miss
  flown := Twin.flown
  noticed := fun h _ _ =>
    ⟨⟨h.unranked, h.unranked', h.flights, h.live?, h.hits, h.misses⟩, h.now⟩
  set := Twin.set
  touch := Twin.touch
  remove := Twin.remove
  clear := Twin.clear
  close := fun h => ⟨⟨h.unranked, h.unranked', h.flights, h.live?, h.hits, h.misses⟩, h.now⟩

end Cache

end ExpiringCache
