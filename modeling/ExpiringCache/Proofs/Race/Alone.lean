import ExpiringCache.Proofs.PlainCache.Calls
import ExpiringCache.Proofs.Race.Turns

/-! # Pieces that nobody interrupts

    A call is carried out in parts, `Cache.begin`, `Cache.enter`,
    `Cache.leave` and `Cache.join`.  Each of these is a stretch of pieces that
    a caller does one after another while nobody else moves: entering a
    flight is one piece if somebody leads it, and otherwise three up to the
    computation, or five if the key has become live; leaving is five, and
    taking the value of a leader is two.  Put together they are `Cache.call`,
    whatever other callers are in the middle of. -/

namespace ExpiringCache

variable {I K V : Type} [DecidableEq K]

/-! ## The parts of a call -/

namespace Cache

variable {c : Cache K V} {key : K}

/-- Whoever enters waits for the flight that is registered. -/
theorem enter_of_running (hflight : c.store.flights.isRunning key = true) :
    c.enter (.forGood key) = (.waiting (.forGood key), c) := by
  rw [enter, Turn.forGood, if_pos hflight]

/-- Whoever enters leads if the key is neither registered nor live. -/
theorem enter_of_dead (hflight : c.store.flights.isRunning key = false)
    (h : c.read.store.live? c.read.now key = none) :
    c.enter (.forGood key) = (.producing (.lead (.forGood key)), c.read.led key) := by
  have hread : c.read.store.flights.isRunning key = false := hflight
  simp only [enter, Turn.forGood, Store.beginSetUnlessLive, hflight, hread, h,
    Bool.false_eq_true, if_false]
  rfl

/-- Whoever enters is done if the key is live by now. -/
theorem enter_of_live (hflight : c.store.flights.isRunning key = false) {item : Item V}
    (h : c.read.store.live? c.read.now key = some item) :
    c.enter (.forGood key) = (.reply (.value (some item.value)), c.read.touch key) := by
  have hread : c.read.store.flights.isRunning key = false := hflight
  simp only [enter, Turn.forGood, Store.beginSetUnlessLive, hflight, hread, h,
    Bool.false_eq_true, if_false]
  rfl

/-- What is not live for a caller that asks is not live when it asks again. -/
theorem live?_get_of_none (h : c.read.store.live? c.read.now key = none) :
    (c.get key).2.read.store.live? (c.get key).2.read.now key = none := by
  simp only [get, h]
  show c.store.live? c.clock.read.read.now key = none
  rw [Clock.now_read]
  exact h

theorem flights_get_of_dead (h : c.read.store.live? c.read.now key = none) :
    (c.get key).2.store.flights = c.store.flights := by
  simp only [get, h]
  rfl

/-- A call leads that finds its key neither live nor registered. -/
theorem beginGetOrPut_of_dead (hflight : c.store.flights.isRunning key = false)
    (h : c.read.store.live? c.read.now key = none) :
    c.beginGetOrPut key .produced .zero =
      (.producing (.lead (.forGood key)), (c.get key).2.read.led key) := by
  have hflight' : (c.get key).2.store.flights.isRunning key = false := by
    rw [flights_get_of_dead h]
    exact hflight
  rw [beginGetOrPut_of_none (get_of_dead h), enterNew_of_nonnegative _ _ _ _ rfl]
  exact enter_of_dead hflight' (live?_get_of_none h)

end Cache

/-! ## The pieces of each part -/

namespace Race

variable [DecidableEq I] {key : I → K} {s : Race I K V} {i : I}

/-- A caller does so many pieces of its call while nobody else moves. -/
def advance (key : I → K) (s : Race I K V) (i : I) (ending : Ending V) (n : Nat) : Race I K V :=
  s.run key (List.replicate n (.go i ending))

/-- The call of a caller has had this outcome. -/
def Returned (s : Race I K V) (i : I) (outcome : Except Fault (Reply K V) × Cache K V) : Prop :=
  s.cache = outcome.2 ∧ ∃ result, s.phase i = .done result ∧ outcome.1 = result.map .value

theorem advance_succ (key : I → K) (s : Race I K V) (i : I) (ending : Ending V) (n : Nat) :
    s.advance key i ending (n + 1) = (s.go key i ending).advance key i ending n := rfl

theorem advance_add (key : I → K) (s : Race I K V) (i : I) (ending : Ending V) (m n : Nat) :
    s.advance key i ending (m + n) = (s.advance key i ending m).advance key i ending n := by
  simp only [advance, run, List.replicate_add, List.foldl_append]

theorem advance_done {result : Except Fault (Option V)} (h : s.phase i = .done result)
    (ending : Ending V) (n : Nat) : s.advance key i ending n = s := by
  induction n with
  | zero => rfl
  | succ n ih =>
      have hstays : s.go key i ending = s := by simp only [go, h]
      rw [advance_succ, hstays, ih]

/-- What a leader does once its flight is over. -/
theorem advance_leaves (key : I → K) {landing : Except Fault (Option V × Bool)} (h : s.phase i = .leaves landing)
    (ending : Ending V) (n : Nat) :
    (s.advance key i ending (3 + n)).cache =
        (s.leave key i landing).cache.wrapUp (key i) landing ∧
      (s.advance key i ending (3 + n)).phase i = .done (landing.map Prod.fst) := by
  have hleft : s.go key i ending = s.leave key i landing := by simp only [go, h]
  have hpublished : (s.leave key i landing).go key i ending =
      (s.leave key i landing).publish i landing := by
    simp only [go, leave, phase_become_self]
  have hsettled : ((s.leave key i landing).publish i landing).go key i ending =
      ((s.leave key i landing).publish i landing).settle key i landing := by
    simp only [go, publish, phase_become_self]
  have hdone : (((s.leave key i landing).publish i landing).settle key i landing).phase i =
      .done (landing.map Prod.fst) := phase_become_self ..
  rw [advance_add, advance_succ, hleft, advance_succ, hpublished, advance_succ, hsettled,
    advance_done hdone, advance_done hdone]
  exact ⟨rfl, hdone⟩

/-- A leader whose computation ends leaves. -/
theorem advance_computes (key : I → K) (h : s.phase i = .computes) (ending : Ending V) :
    Returned (s.advance key i ending 5) i (s.cache.leave (.forGood (key i)) ending) := by
  have hconcluded : s.go key i ending = s.conclude i ending := by simp only [go, h]
  cases ending with
  | value v =>
      have hphase : (s.conclude i (.value v)).phase i = .stores v := phase_become_self ..
      have hkept : (s.conclude i (.value v)).go key i (.value v) =
          (s.conclude i (.value v)).keep key i v := by simp only [go, hphase]
      rw [advance_succ, hconcluded, advance_succ, hkept]
      have hleaves : ((s.conclude i (.value v)).keep key i v).phase i =
          .leaves (.ok (some v, true)) := phase_become_self ..
      obtain ⟨hcache, hdone⟩ := advance_leaves key hleaves (.value v) 0
      exact ⟨hcache, _, hdone, rfl⟩
  | nothing =>
      have hphase : (s.conclude i .nothing).phase i = .leaves (.ok (none, false)) :=
        phase_become_self ..
      rw [advance_succ, hconcluded]
      obtain ⟨hcache, hdone⟩ := advance_leaves key hphase .nothing 1
      exact ⟨hcache, _, hdone, rfl⟩
  | failed failure =>
      have hphase : (s.conclude i (.failed failure)).phase i =
          .leaves (.error (.error (.producer failure))) := phase_become_self ..
      rw [advance_succ, hconcluded]
      obtain ⟨hcache, hdone⟩ := advance_leaves key hphase (.failed failure) 1
      exact ⟨hcache, _, hdone, rfl⟩
  | panicked text =>
      have hphase : (s.conclude i (.panicked text)).phase i = .leaves (.error (.panic text)) :=
        phase_become_self ..
      rw [advance_succ, hconcluded]
      obtain ⟨hcache, hdone⟩ := advance_leaves key hphase (.panicked text) 1
      exact ⟨hcache, _, hdone, rfl⟩

/-- Whoever has waited for a leader with an answer takes it. -/
theorem advance_waits {leader : I} {value : Option V} (h : s.phase i = .waits leader)
    (hsignal : s.signal leader = .landed value) (ending : Ending V) :
    Returned (s.advance key i ending 2) i
      (.ok (s.cache.join (.forGood (key i)) value).1,
        (s.cache.join (.forGood (key i)) value).2) := by
  have htold : s.go key i ending = s.become i (.settles (.ok (value, false))) := by
    simp only [go, h, listen, hsignal]
  have hsettled : (s.become i (.settles (.ok (value, false)))).go key i ending =
      (s.become i (.settles (.ok (value, false)))).settle key i (.ok (value, false)) := by
    simp only [go, phase_become_self]
  rw [advance_succ, htold, advance_succ, hsettled]
  exact ⟨rfl, .ok value, phase_become_self .., rfl⟩

/-- Whoever has missed its key, and finds it free and still not live, is led
    to its computation. -/
theorem advance_missed_of_dead (h : s.phase i = .missed) (hfree : s.registry (key i) = none)
    (hdead : s.cache.read.store.live? s.cache.read.now (key i) = none) (ending : Ending V) :
    (s.advance key i ending 3).cache = s.cache.read.led (key i) ∧
      (s.advance key i ending 3).phase i = .computes := by
  have henrol : s.go key i ending = s.register key i := by simp only [go, h, enrol, hfree]
  have hleads : (s.register key i).phase i = .leads := phase_become_self ..
  have hcache : (s.register key i).cache.read = s.cache.read.led (key i) := rfl
  have hready : (s.register key i).go key i ending =
      become { s.register key i with cache := s.cache.read.led (key i) } i .ready := by
    have hagain : (s.cache.read.led (key i)).store.live? (s.cache.read.led (key i)).now (key i) =
        none := hdead
    simp only [go, hleads, recheck, hcache, hagain]
  have hcomputes :
      (become { s.register key i with cache := s.cache.read.led (key i) } i .ready).go key i ending =
        compute (become { s.register key i with cache := s.cache.read.led (key i) } i .ready) i := by
    simp only [go, phase_become_self]
  rw [advance_succ, henrol, advance_succ, hready, advance_succ, hcomputes]
  exact ⟨rfl, phase_become_self ..⟩

/-- Whoever has missed its key, and finds it free but live by now, takes the
    value. -/
theorem advance_missed_of_live (h : s.phase i = .missed) (hfree : s.registry (key i) = none)
    {item : Item V} (hlive : s.cache.read.store.live? s.cache.read.now (key i) = some item)
    (ending : Ending V) :
    Returned (s.advance key i ending 5) i
      (.ok (.value (some item.value)), s.cache.read.touch (key i)) := by
  have henrol : s.go key i ending = s.register key i := by simp only [go, h, enrol, hfree]
  have hleads : (s.register key i).phase i = .leads := phase_become_self ..
  have hcache : (s.register key i).cache.read = s.cache.read.led (key i) := rfl
  have hleaves : (s.register key i).go key i ending =
      become { s.register key i with cache := s.cache.read.led (key i) } i
        (.leaves (.ok (some item.value, false))) := by
    have hagain : (s.cache.read.led (key i)).store.live? (s.cache.read.led (key i)).now (key i) =
        some item := hlive
    simp only [go, hleads, recheck, hcache, hagain]
  have hleft : ((become { s.register key i with cache := s.cache.read.led (key i) } i
      (.leaves (.ok (some item.value, false)))).leave key i (.ok (some item.value, false))).cache =
        s.cache.read := by
    show { s.cache.read with store :=
      { s.cache.read.store with
        flights := (s.cache.read.store.flights.enter (key i)).leave (key i) } } = s.cache.read
    rw [Flights.leave_enter]
  obtain ⟨hover, hdone⟩ := advance_leaves key
    (phase_become_self { s.register key i with cache := s.cache.read.led (key i) } i
      (.leaves (.ok (some item.value, false)))) ending 0
  rw [hleft] at hover
  rw [advance_succ, henrol, advance_succ, hleaves]
  exact ⟨hover, _, hdone, rfl⟩

/-- A caller that begins and finds its key live is done. -/
theorem advance_idle_of_live (hidle : s.phase i = .idle) {item : Item V}
    (hlive : s.cache.read.store.live? s.cache.read.now (key i) = some item) (ending : Ending V)
    (n : Nat) :
    Returned (s.advance key i ending (1 + n)) i
      (.ok (.value (some item.value)), (s.cache.get (key i)).2) := by
  have hdone : (s.look key i).phase i = .done (.ok (some item.value)) := by
    rw [look, Cache.get_of_live hlive]
    exact phase_become_self ..
  have hcache : (s.look key i).cache = (s.cache.get (key i)).2 := by
    rw [look, Cache.get_of_live hlive]
    rfl
  have hlook : s.go key i ending = s.look key i := by simp only [go, hidle]
  rw [advance_add, advance_succ, hlook, advance_done hdone, advance_done hdone]
  exact ⟨hcache, _, hdone, rfl⟩

/-- A caller that begins and does not find its key live goes on to the
    registry. -/
theorem advance_idle_of_dead (hidle : s.phase i = .idle)
    (hdead : s.cache.read.store.live? s.cache.read.now (key i) = none) (ending : Ending V) :
    (s.advance key i ending 1).cache = (s.cache.get (key i)).2 ∧
      (s.advance key i ending 1).phase i = .missed ∧
      (s.advance key i ending 1).registry = s.registry := by
  have hlook : s.advance key i ending 1 = s.look key i := by
    show s.go key i ending = s.look key i
    simp only [go, hidle]
  rw [hlook, look, Cache.get_of_dead hdead]
  exact ⟨rfl, phase_become_self .., rfl⟩

/-! ## Whole calls -/

namespace Turns

omit [DecidableEq I] in
theorem isRunning_eq (h : Turns key s) (k : K) :
    s.cache.store.flights.isRunning k = (s.registry k).isSome := by
  rw [Bool.eq_iff_iff, ← h.flights, Flights.isRunning, List.contains_iff_mem]

omit [DecidableEq I] in
/-- A caller that finds its key registered waits, as in `Cache.enter`. -/
theorem enter_of_led (h : Turns key s) {leader : I} (hled : s.registry (key i) = some leader) :
    s.cache.enter (.forGood (key i)) = (.waiting (.forGood (key i)), s.cache) :=
  Cache.enter_of_running (by rw [h.isRunning_eq, hled]; rfl)

/-- A caller that finds its key free leads and computes, or it takes the value
    that is live by now, as in `Cache.enter`. -/
theorem enter_of_free (h : Turns key s) (hmissed : s.phase i = .missed)
    (hfree : s.registry (key i) = none) (ending : Ending V) :
    (∃ c, s.cache.enter (.forGood (key i)) = (.producing (.lead (.forGood (key i))), c) ∧
        (s.advance key i ending 3).cache = c ∧ (s.advance key i ending 3).phase i = .computes) ∨
      ∃ result c, s.cache.enter (.forGood (key i)) = (.done result, c) ∧
        Returned (s.advance key i ending 5) i (result, c) := by
  have hflight : s.cache.store.flights.isRunning (key i) = false := by
    rw [h.isRunning_eq, hfree]
    rfl
  cases hlive : s.cache.read.store.live? s.cache.read.now (key i) with
  | some item =>
      exact Or.inr ⟨_, _, Cache.enter_of_live hflight hlive,
        advance_missed_of_live hmissed hfree hlive ending⟩
  | none =>
      exact Or.inl ⟨_, Cache.enter_of_dead hflight hlive,
        advance_missed_of_dead hmissed hfree hlive ending⟩

/-- A caller that nobody interrupts does to the cache what a call does, and
    has the same outcome, whoever leads the flights of other keys. -/
theorem returned_call (h : Turns key s) (hidle : s.phase i = .idle)
    (hfree : s.registry (key i) = none) (ending : Ending V) :
    let call := s.cache.call (.getOrPutFrom (key i) .zero true) fun c => ((ending, ()), c)
    Returned (s.advance key i ending 9) i (call.1.1, call.2) := by
  intro call
  cases hlive : s.cache.read.store.live? s.cache.read.now (key i) with
  | some item =>
      have hbegin : s.cache.begin (.getOrPutFrom (key i) .zero true) = _ :=
        Cache.beginGetOrPut_of_some (Cache.get_of_live hlive) .produced .zero
      have hcall : call = _ := Cache.call_of_reply hbegin _
      rw [hcall]
      exact advance_idle_of_live hidle hlive ending 8
  | none =>
      have hflight : s.cache.store.flights.isRunning (key i) = false := by
        rw [h.isRunning_eq, hfree]
        rfl
      have hbegin : s.cache.begin (.getOrPutFrom (key i) .zero true) = _ :=
        Cache.beginGetOrPut_of_dead hflight hlive
      have hcall : call = _ := Cache.call_of_producing hbegin ending ()
      obtain ⟨hcache, hmissed, hregistry⟩ := advance_idle_of_dead hidle hlive ending
      have hagain := Cache.live?_get_of_none hlive
      rw [← hcache] at hagain
      obtain ⟨hled, hcomputes⟩ := advance_missed_of_dead hmissed
        ((congrFun hregistry (key i)).trans hfree) hagain ending
      have hreturned := advance_computes key hcomputes ending
      rw [hled, hcache, ← advance_add, ← advance_add] at hreturned
      rw [hcall]
      exact hreturned

end Turns

end Race

end ExpiringCache
