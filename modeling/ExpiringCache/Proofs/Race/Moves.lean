import ExpiringCache.Proofs.Order.Sweep
import ExpiringCache.Proofs.Race.Steps

/-! # What a caller does next

    Under a clock short of `never`, an entry without end stays: the cache
    finds a key live if and only if it holds it, and nothing that the callers
    and the janitor do to the cache matters to the others, except for
    registering and leaving a flight and for storing a value.

    `Race.Moves` says once what the next piece of a call can be, in a cache
    like that, so that every invariant of the race is shown by cases on
    it. -/

namespace ExpiringCache

variable {I K V : Type} [DecidableEq K]

/-! ## What the pieces do to the cache -/

namespace Cache

/-- A cache for any number of entries, none of which ever expires. -/
structure Endless (c : Cache K V) : Prop where
  unranked : c.recency = none
  early : c.now < never
  endless : ∀ k item, c.store.item? k = some item → item.expireAt = never

/-- The second cache has the flights and the items of the first, and is
    endless, too. -/
structure Rests (c c' : Cache K V) : Prop where
  flights : c'.store.flights = c.store.flights
  item? : ∀ k, c'.store.item? k = c.store.item? k
  endless : c'.Endless

namespace Endless

variable {c c' : Cache K V}

/-- Nothing is found live that is not there, and all that is there is
    live. -/
theorem live?_eq (h : c.Endless) {time : Int} (htime : time < never) (key : K) :
    c.store.live? time key = c.store.item? key := by
  cases hitem : c.store.item? key with
  | none =>
      rw [Store.live?, hitem]
      rfl
  | some item => exact Store.live?_eq_some.mpr ⟨hitem, h.endless key item hitem ▸ htime⟩

theorem rests (h : c.Endless) (hstore : c'.store = c.store) (hrecency : c'.recency = c.recency)
    (hnow : c'.now = c.now) : c.Rests c' where
  flights := congrArg Store.flights hstore
  item? := fun k => by rw [hstore]
  endless :=
    { unranked := hrecency.trans h.unranked
      early := hnow ▸ h.early
      endless := fun k item hitem => h.endless k item (hstore ▸ hitem) }

theorem rests_read (h : c.Endless) : c.Rests c.read := h.rests rfl rfl (now_read c)

/-- Asking for a key counts, but marks nothing as used. -/
theorem rests_get (h : c.Endless) (key : K) : c.Rests (c.get key).2 := by
  have hhit := touch_of_unranked (c := { c.read with counters := c.read.counters.hit })
    h.unranked key
  cases hlive : c.read.store.live? c.read.now key with
  | none =>
      simp only [Cache.get, hlive]
      exact h.rests rfl rfl (now_read c)
  | some item =>
      simp only [Cache.get, hlive, hhit]
      exact h.rests rfl rfl (now_read c)

/-- What a caller does after its flight has landed leaves every entry. -/
theorem rests_wrapUp (h : c.Endless) (key : K)
    (landing : Except Fault (Option V × Bool)) : c.Rests (c.wrapUp key landing) := by
  cases landing with
  | error fault => exact h.rests rfl rfl rfl
  | ok landed =>
      obtain ⟨value, stored⟩ := landed
      have htouched : ∀ d : Cache K V, c.Rests d →
          c.Rests (if value.isSome then d.touch key else d) := by
        intro d hd
        split
        · rwa [touch_of_unranked hd.endless.unranked]
        · exact hd
      rw [wrapUp, Cache.settle]
      refine htouched _ ?_
      split
      · exact h.rests rfl rfl rfl
      · exact h.rests rfl rfl rfl

/-- A sweep finds nothing expired, so it leaves every entry. -/
theorem rests_swept (h : c.Endless) (order : VisitingOrder K) : c.Rests (c.swept order) := by
  have hthins := c.thins_swept order
  have hitem := hthins.item?_eq fun k item hk => h.endless k item hk ▸ h.early
  refine ⟨hthins.flights, hitem, hthins.unranked h.unranked, ?_, fun k item hk => ?_⟩
  · show (c.swept order).clock.now < never
    rw [clock_swept, Clock.now_read]
    exact h.early
  · rw [hitem] at hk
    exact h.endless k item hk

/-- The clock may be set to any time short of `never`. -/
theorem rests_setWall (h : c.Endless) {wall : Int} (hwall : wall < never) :
    c.Rests { c with clock := c.clock.setTo wall } := by
  have hlatest : c.clock.latest < never := Int.lt_of_le_of_lt (Int.le_max_right _ _) h.early
  refine ⟨rfl, fun _ => rfl, h.unranked, ?_, h.endless⟩
  show max wall c.clock.latest < never
  omega

/-- Beginning and ending flights changes nothing else. -/
theorem flying (h : c.Endless) (flights : Flights K) :
    Endless { c with store := { c.store with flights := flights } } :=
  ⟨h.unranked, h.early, h.endless⟩

/-- An item without end may be stored. -/
theorem set (h : c.Endless) (key : K) (value : V) :
    Endless { c with store := c.store.set key ⟨value, never⟩ } := by
  refine ⟨h.unranked, h.early, fun k item hk => ?_⟩
  rw [Store.item?_set] at hk
  split at hk
  · cases hk
    rfl
  · exact h.endless k item hk

end Endless

end Cache

/-! ## The pieces -/

namespace Race

variable [DecidableEq I] {key : I → K} {s : Race I K V} {i : I}

/-- What the race can be after the next piece of a call. -/
inductive Moves (key : I → K) (s : Race I K V) (i : I) (ending : Ending V) : Race I K V → Prop where
  | found (item : Item V) (c : Cache K V) (hphase : s.phase i = .idle)
      (hitem : s.cache.store.item? (key i) = some item) (hc : s.cache.Rests c) :
      Moves key s i ending
        (answer { s.note (.began i) with cache := c } i (.ok (some item.value)))
  | missed (c : Cache K V) (hphase : s.phase i = .idle) (hc : s.cache.Rests c) :
      Moves key s i ending (become { s.note (.began i) with cache := c } i .missed)
  | joined (leader : I) (hphase : s.phase i = .missed)
      (hleader : s.registry (key i) = some leader) :
      Moves key s i ending (s.become i (.waits leader))
  | enrolled (hphase : s.phase i = .missed) (hfree : s.registry (key i) = none) :
      Moves key s i ending (s.register key i)
  | told (leader : I) (value : Option V) (hphase : s.phase i = .waits leader)
      (hsignal : s.signal leader = .landed value) :
      Moves key s i ending (s.become i (.settles (.ok (value, false))))
  | retried (leader : I) (hphase : s.phase i = .waits leader)
      (hsignal : s.signal leader = .failed) : Moves key s i ending (s.become i .missed)
  | foundAgain (item : Item V) (c : Cache K V) (hphase : s.phase i = .leads)
      (hitem : s.cache.store.item? (key i) = some item) (hc : s.cache.Rests c) :
      Moves key s i ending
        (become { s with cache := c } i (.leaves (.ok (some item.value, false))))
  | readied (c : Cache K V) (hphase : s.phase i = .leads)
      (hitem : s.cache.store.item? (key i) = none) (hc : s.cache.Rests c) :
      Moves key s i ending (become { s with cache := c } i .ready)
  | started (hphase : s.phase i = .ready) : Moves key s i ending (s.compute i)
  | concluded (hphase : s.phase i = .computes) : Moves key s i ending (s.conclude i ending)
  | kept (value : V) (hphase : s.phase i = .stores value) :
      Moves key s i ending (s.keep key i value)
  | left (landing : Except Fault (Option V × Bool)) (hphase : s.phase i = .leaves landing) :
      Moves key s i ending (s.leave key i landing)
  | published (landing : Except Fault (Option V × Bool)) (hphase : s.phase i = .publishes landing) :
      Moves key s i ending (s.publish i landing)
  | settled (landing : Except Fault (Option V × Bool)) (c : Cache K V)
      (hphase : s.phase i = .settles landing) (hc : s.cache.Rests c) :
      Moves key s i ending (answer { s with cache := c } i (landing.map Prod.fst))
  -- it waits for somebody who has not published, or its call is over
  | stayed : Moves key s i ending s

theorem moves_look (h : s.cache.Endless) (hphase : s.phase i = .idle) (ending : Ending V) :
    Moves key s i ending (s.look key i) := by
  have hrests := h.rests_get (key i)
  have hlive : s.cache.read.store.live? s.cache.read.now (key i) = s.cache.store.item? (key i) :=
    h.rests_read.endless.live?_eq h.rests_read.endless.early (key i)
  cases hitem : s.cache.store.item? (key i) with
  | none =>
      rw [hitem] at hlive
      rw [look, Cache.get_of_dead hlive]
      exact .missed _ hphase hrests
  | some item =>
      rw [hitem] at hlive
      rw [look, Cache.get_of_live hlive]
      exact .found item _ hphase hitem hrests

theorem moves_enrol (hphase : s.phase i = .missed) (ending : Ending V) :
    Moves key s i ending (s.enrol key i) := by
  cases hregistry : s.registry (key i) with
  | none =>
      simp only [enrol, hregistry]
      exact .enrolled hphase hregistry
  | some leader =>
      simp only [enrol, hregistry]
      exact .joined leader hphase hregistry

theorem moves_listen {leader : I} (hphase : s.phase i = .waits leader) (ending : Ending V) :
    Moves key s i ending (s.listen i leader) := by
  cases hsignal : s.signal leader with
  | pending =>
      simp only [listen, hsignal]
      exact .stayed
  | landed value =>
      simp only [listen, hsignal]
      exact .told leader value hphase hsignal
  | failed =>
      simp only [listen, hsignal]
      exact .retried leader hphase hsignal

theorem moves_recheck (h : s.cache.Endless) (hphase : s.phase i = .leads) (ending : Ending V) :
    Moves key s i ending (s.recheck key i) := by
  have hlive : s.cache.read.store.live? s.cache.read.now (key i) = s.cache.store.item? (key i) :=
    h.rests_read.endless.live?_eq h.rests_read.endless.early (key i)
  cases hitem : s.cache.store.item? (key i) with
  | none =>
      simp only [recheck, hlive, hitem]
      exact .readied _ hphase hitem h.rests_read
  | some item =>
      simp only [recheck, hlive, hitem]
      exact .foundAgain item _ hphase hitem h.rests_read

/-- Whatever a caller is about to do is one of the moves. -/
theorem moves (h : s.cache.Endless) (ending : Ending V) :
    Moves key s i ending (s.go key i ending) := by
  cases hphase : s.phase i with
  | idle =>
      simp only [go, hphase]
      exact moves_look h hphase ending
  | missed =>
      simp only [go, hphase]
      exact moves_enrol hphase ending
  | waits leader =>
      simp only [go, hphase]
      exact moves_listen hphase ending
  | leads =>
      simp only [go, hphase]
      exact moves_recheck h hphase ending
  | ready =>
      simp only [go, hphase]
      exact .started hphase
  | computes =>
      simp only [go, hphase]
      exact .concluded hphase
  | stores value =>
      simp only [go, hphase]
      exact .kept value hphase
  | leaves landing =>
      simp only [go, hphase]
      exact .left landing hphase
  | publishes landing =>
      simp only [go, hphase]
      exact .published landing hphase
  | settles landing =>
      simp only [go, hphase]
      exact .settled landing _ hphase (h.rests_wrapUp (key i) landing)
  | done result =>
      simp only [go, hphase]
      exact .stayed

/-- The cache stays endless. -/
theorem Moves.endless {ending : Ending V} {s' : Race I K V} (hmoves : Moves key s i ending s')
    (h : s.cache.Endless) : s'.cache.Endless := by
  cases hmoves with
  | found item c hphase hitem hc => exact hc.endless
  | missed c hphase hc => exact hc.endless
  | joined leader hphase hleader => exact h
  | enrolled hphase hfree => exact h.flying _
  | told leader value hphase hsignal => exact h
  | retried leader hphase hsignal => exact h
  | foundAgain item c hphase hitem hc => exact hc.endless
  | readied c hphase hitem hc => exact hc.endless
  | started hphase => exact h
  | concluded hphase => exact h
  | kept value hphase => exact h.set (key i) value
  | left landing hphase => exact h.flying _
  | published landing hphase => exact h
  | settled landing c hphase hc => exact hc.endless
  | stayed => exact h

/-- The wall clock is not set so far ahead that what is kept for ever would
    end. -/
def Piece.early : Piece I K V → Prop
  | .setWall wall => wall < never
  | _ => True

/-- What no piece of a call breaks in an endless cache, and what does not
    depend on the rest of the cache, holds all the time. -/
theorem run_induction {P : Race I K V → Prop}
    (hmoves : ∀ s i ending s', s.cache.Endless → P s → Moves key s i ending s' → P s')
    (hrests : ∀ s c, P s → s.cache.Rests c → P { s with cache := c })
    (h : s.cache.Endless) (hs : P s) (pieces : List (Piece I K V))
    (hearly : ∀ piece ∈ pieces, piece.early) :
    (s.run key pieces).cache.Endless ∧ P (s.run key pieces) := by
  induction pieces generalizing s with
  | nil => exact ⟨h, hs⟩
  | cons piece pieces ih =>
      have hpiece : piece.early := hearly piece List.mem_cons_self
      have hstep : (s.step key piece).cache.Endless ∧ P (s.step key piece) := by
        cases piece with
        | go i ending => exact ⟨(moves h ending).endless h, hmoves s i ending _ h hs (moves h ending)⟩
        | sweep order =>
            have hc := h.rests_swept order
            exact ⟨hc.endless, hrests s _ hs hc⟩
        | setWall wall =>
            have hc := h.rests_setWall hpiece
            exact ⟨hc.endless, hrests s _ hs hc⟩
      exact ih hstep.1 hstep.2 fun later hlater => hearly later (List.mem_cons_of_mem piece hlater)

end Race

end ExpiringCache
