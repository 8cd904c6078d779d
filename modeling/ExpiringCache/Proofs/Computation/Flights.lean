import ExpiringCache.Proofs.Changes.Session
import ExpiringCache.Proofs.Order.Sweep
import ExpiringCache.Proofs.PlainCache.Runs

/-! # Flights begin and end with their calls

    A call registers a flight for no other reason than to run the caller's
    computation under it, and it ends the flight once the computation has
    ended, whatever that came to.  So when a call is over the registry is as
    it was before, and this is all that can be said: whatever the computation
    does before it ends, it has registered flights and ended them again.

    Scripts are calls within calls, so the argument is by induction on them:
    a script leaves the registry as it found it, and the recency list, if
    there is one, in good order. -/

namespace ExpiringCache

variable {K V : Type} [DecidableEq K]

/-! ## The registry while a call is open -/

/-- The registry while the computation of a call runs. -/
def Pending.entered (flights : Flights K) : Pending K V → Flights K
  | .lead turn => flights.enter turn.key
  | _ => flights

/-- The registry once the computation has ended. -/
def Pending.left (flights : Flights K) : Pending K V → Flights K
  | .lead turn => flights.leave turn.key
  | _ => flights

/-- The registry when a call has come so far. -/
def Progress.entered (flights : Flights K) : Progress K V → Flights K
  | .producing next => next.entered flights
  | _ => flights

/-- A call that leaves the flight it has entered leaves the registry as it
    found it. -/
theorem Pending.left_entered (next : Pending K V) (flights : Flights K) :
    next.left (next.entered flights) = flights := by
  cases next with
  | store key ttl => rfl
  | offer key ttl => rfl
  | lead turn => exact flights.leave_enter turn.key

namespace Cache

/-! ## Reading and writing -/

omit [DecidableEq K] in
@[simp] theorem flights_expiryFrom (c : Cache K V) (ttl : Duration) :
    (c.expiryFrom ttl).2.store.flights = c.store.flights := by
  show Store.flights (Cache.store (if _ then c else c.read)) = _
  split
  · rfl
  · rfl

@[simp] theorem flights_write (c : Cache K V) (key : K) (value : V) (expireAt : Int) :
    (c.write key value expireAt).store.flights = c.store.flights :=
  flights_touch _ key

/-- The registry has no part in setting a key. -/
theorem flights_put (c : Cache K V) (key : K) (value : V) (ttl : Duration) :
    (c.put key value ttl).store.flights = c.store.flights := by
  rw [put]
  split
  · exact flights_remove c [key]
  · exact (flights_write _ key value _).trans (flights_expiryFrom c ttl)

/-- The registry has no part in a row of writes. -/
theorem flights_foldl_write (c : Cache K V) (entries : List (K × V)) (expireAt : Int) :
    (entries.foldl (fun c entry => c.write entry.1 entry.2 expireAt) c).store.flights =
      c.store.flights := by
  induction entries generalizing c with
  | nil => rfl
  | cons entry rest ih => exact (ih _).trans (flights_write c entry.1 entry.2 expireAt)

/-- The registry has no part in setting a batch. -/
theorem flights_putAll (c : Cache K V) (entries : List (K × V)) (ttl : Duration) :
    (c.putAll entries ttl).store.flights = c.store.flights := by
  rw [putAll]
  split
  · exact flights_remove c _
  · exact (flights_foldl_write _ entries _).trans (flights_expiryFrom c ttl)

@[simp] theorem flights_get (c : Cache K V) (key : K) :
    (c.get key).2.store.flights = c.store.flights := by
  rw [get]
  split
  · exact flights_touch _ key
  · rfl

/-- The registry has no part in a call that has its value at hand. -/
theorem flights_putIfAbsent (c : Cache K V) (key : K) (value : V) (ttl : Duration) :
    (c.putIfAbsent key value ttl).2.store.flights = c.store.flights := by
  have hcontains : (c.contains key).2.store.flights = c.store.flights := flights_get c key
  rw [putIfAbsent]
  generalize c.contains key = found at hcontains
  obtain ⟨present, c'⟩ := found
  show Store.flights (Cache.store (if _ then _ else _ : Bool × Cache K V).2) = _
  split
  · exact hcontains
  · exact ((flights_write _ key value _).trans (flights_expiryFrom c' ttl)).trans hcontains

theorem flights_lifetime (c : Cache K V) (key : K) :
    (c.lifetime key).2.store.flights = c.store.flights := by
  rw [lifetime]
  split
  · rfl
  · rfl

theorem flights_replace (c : Cache K V) (key : K) (value : V) :
    (c.replace key value).2.store.flights = c.store.flights := by
  cases hlive : c.read.store.live? c.read.now key with
  | none =>
      simp only [replace, Store.replaceValue, hlive]
      rfl
  | some item =>
      simp only [replace, Store.replaceValue, hlive]
      exact flights_touch _ key

/-- The registry has no part in giving a key another lifetime. -/
theorem flights_setLifetime (c : Cache K V) (key : K) (ttl : Duration) :
    (c.setLifetime key ttl).2.store.flights = c.store.flights := by
  have hread : (c.expiryFrom ttl).2.read.store.flights = c.store.flights :=
    flights_expiryFrom c ttl
  cases hlive : (c.expiryFrom ttl).2.read.store.live? (c.expiryFrom ttl).2.read.now key with
  | none =>
      simp only [setLifetime, Store.replaceExpiry, hlive]
      exact hread
  | some item =>
      have hspan := Item.remainingAt_ne_absent (Store.live?_eq_some.mp hlive).2
      simp only [setLifetime, Store.replaceExpiry, hlive, if_neg hspan]
      exact (flights_touch _ key).trans hread

/-! ## Writes under a flight -/

/-- The registry has no part in what is done once a turn has its value: the
    flight has ended before. -/
theorem flights_settle (c : Cache K V) (turn : Turn K V) (value : Option V) (stored : Bool) :
    (c.settle turn value stored).2.store.flights = c.store.flights := by
  rw [settle]
  split
  · exact flights_remove c [turn.key]
  · cases stored with
    | false => cases value with
      | none => rfl
      | some v => exact flights_touch c turn.key
    | true => cases value with
      | none => rfl
      | some v => exact flights_touch _ turn.key

/-- Whoever enters a flight and is to compute has registered it. -/
theorem flights_enter (c : Cache K V) (turn : Turn K V) :
    (c.enter turn).2.store.flights = (c.enter turn).1.entered c.store.flights := by
  rw [enter]
  split
  · rfl
  · rename_i hfree
    split
    · cases hpayload : turn.payload with
      | given value =>
          simp only [Store.beginProduce, if_neg hfree]
          exact flights_settle _ turn (some value) false
      | produced =>
          simp only [Store.beginProduce, if_neg hfree]
          rfl
    · have hfree' : ¬c.read.store.flights.isRunning turn.key = true := hfree
      cases hlive : c.read.store.live? c.read.now turn.key with
      | some item =>
          simp only [Store.beginSetUnlessLive, if_neg hfree', hlive]
          exact flights_settle _ turn _ false
      | none => cases hpayload : turn.payload with
        | given value =>
            simp only [Store.beginSetUnlessLive, if_neg hfree', hlive]
            exact flights_settle _ turn _ true
        | produced =>
            simp only [Store.beginSetUnlessLive, if_neg hfree', hlive]
            rfl

/-- Who enters a flight with a turn of its own registers the flight it now
    leads, if it leads one. -/
theorem flights_enterNew (c : Cache K V) (key : K) (payload : Payload V) (ttl : Duration)
    (asksStored : Bool) :
    (c.enterNew key payload ttl asksStored).2.store.flights =
      (c.enterNew key payload ttl asksStored).1.entered c.store.flights := by
  have hturn : (c.turn key payload ttl asksStored).2.store.flights = c.store.flights := by
    rw [turn]
    split
    · rfl
    · exact flights_expiryFrom c ttl
  rw [← hturn]
  exact flights_enter _ _

/-- Nobody who has a value at hand computes one. -/
theorem entered_enter_given (c : Cache K V) (key : K) (value : V) (expireAt : Option Int)
    (asksStored : Bool) (flights : Flights K) :
    (c.enter ⟨key, .given value, expireAt, asksStored⟩).1.entered flights = flights := by
  rw [enter]
  split
  · rfl
  · rename_i hfree
    cases expireAt with
    | none =>
        simp only [Store.beginProduce, if_neg hfree]
        rfl
    | some expireAt =>
        have hfree' : ¬c.read.store.flights.isRunning key = true := hfree
        cases hlive : c.read.store.live? c.read.now key with
        | some item =>
            simp only [Store.beginSetUnlessLive, if_neg hfree', hlive]
            rfl
        | none =>
            simp only [Store.beginSetUnlessLive, if_neg hfree', hlive]
            rfl

/-- Who has its value at hand leads no flight. -/
theorem entered_enterNew_given (c : Cache K V) (key : K) (value : V) (ttl : Duration)
    (asksStored : Bool) (flights : Flights K) :
    (c.enterNew key (.given value) ttl asksStored).1.entered flights = flights := by
  cases hneg : ttl.isNegative with
  | true => rw [c.enterNew_of_negative key ttl asksStored hneg, entered_enter_given]
  | false => rw [c.enterNew_of_nonnegative key ttl asksStored hneg, entered_enter_given]

/-- So whoever offers a value registers nothing. -/
theorem flights_enterNew_given (c : Cache K V) (key : K) (value : V) (ttl : Duration)
    (asksStored : Bool) :
    (c.enterNew key (.given value) ttl asksStored).2.store.flights = c.store.flights := by
  rw [flights_enterNew, entered_enterNew_given]

/-- Who leaves a flight ends that of its own key only. -/
theorem flights_leave (c : Cache K V) (turn : Turn K V) (ending : Ending V) :
    (c.leave turn ending).2.store.flights = c.store.flights.leave turn.key := by
  rw [leave]
  split
  · cases ending with
    | value v => exact flights_settle _ turn _ false
    | nothing => exact flights_settle _ turn _ false
    | failed failure => exact flights_remove _ [turn.key]
    | panicked text => rfl
  · cases ending with
    | value v => exact flights_settle _ turn _ true
    | nothing => exact flights_settle _ turn _ false
    | failed failure => rfl
    | panicked text => rfl

/-! ## The parts of a call -/

/-- A call for an absent key that has begun has registered the flight it
    leads, if it leads one. -/
theorem flights_beginPutIfAbsentFrom (c : Cache K V) (key : K) (ttl : Duration)
    (exclusive : Bool) :
    (c.beginPutIfAbsentFrom key ttl exclusive).2.store.flights =
      (c.beginPutIfAbsentFrom key ttl exclusive).1.entered c.store.flights := by
  have hcontains : (c.contains key).2.store.flights = c.store.flights := flights_get c key
  rw [beginPutIfAbsentFrom, ← hcontains]
  generalize c.contains key = found
  obtain ⟨present, c'⟩ := found
  show Store.flights (Cache.store (if _ then _ else _ : Progress K V × Cache K V).2) =
    (if _ then _ else _ : Progress K V × Cache K V).1.entered _
  split
  · rfl
  · split
    · exact flights_enterNew c' key .produced ttl true
    · rfl

/-- A call that reads or stores has registered the flight it leads, if it
    leads one. -/
theorem flights_beginGetOrPut (c : Cache K V) (key : K) (payload : Payload V) (ttl : Duration) :
    (c.beginGetOrPut key payload ttl).2.store.flights =
      (c.beginGetOrPut key payload ttl).1.entered c.store.flights := by
  have hget : (c.get key).2.store.flights = c.store.flights := flights_get c key
  rw [beginGetOrPut, ← hget]
  generalize c.get key = found
  obtain ⟨value, c'⟩ := found
  cases value with
  | some v => rfl
  | none => exact flights_enterNew c' key payload ttl false

/-- A call that reads or offers computes without a flight. -/
theorem flights_beginGetOrOffer (c : Cache K V) (key : K) (ttl : Duration) :
    (c.beginGetOrOffer key ttl).2.store.flights =
      (c.beginGetOrOffer key ttl).1.entered c.store.flights := by
  have hget : (c.get key).2.store.flights = c.store.flights := flights_get c key
  rw [beginGetOrOffer, ← hget]
  generalize c.get key = found
  obtain ⟨value, c'⟩ := found
  cases value with
  | some v => rfl
  | none => rfl

/-- A call that begins registers a flight if it is to compute under one, and
    otherwise none. -/
theorem flights_begin (c : Cache K V) (request : Request K V) :
    (c.begin request).2.store.flights = (c.begin request).1.entered c.store.flights := by
  cases request with
  | put key value ttl => exact flights_put c key value ttl
  | putAll entries ttl => exact flights_putAll c entries ttl
  | putIfAbsent key value ttl => exact flights_putIfAbsent c key value ttl
  | putIfAbsentFrom key ttl exclusive => exact flights_beginPutIfAbsentFrom c key ttl exclusive
  | get key => exact flights_get c key
  | getOrPut key payload ttl => exact flights_beginGetOrPut c key payload ttl
  | getOrPutFrom key ttl exclusive => cases exclusive with
    | true => exact flights_beginGetOrPut c key .produced ttl
    | false => exact flights_beginGetOrOffer c key ttl
  | contains key => exact flights_get c key
  | lifetime key => exact flights_lifetime c key
  | replace key value => exact flights_replace c key value
  | setLifetime key ttl => exact flights_setLifetime c key ttl
  | remove keys => exact flights_remove c keys
  | _ => rfl

/-- A call that goes on after its computation ends the flight that it leads,
    if it leads one, and registers none. -/
theorem flights_finish (c : Cache K V) (next : Pending K V) (ending : Ending V) :
    (c.finish next ending).2.store.flights = next.left c.store.flights := by
  cases next with
  | store key ttl => cases ending with
    | value v => exact (flights_write _ key v _).trans (flights_expiryFrom c ttl)
    | nothing => rfl
    | failed failure => rfl
    | panicked text => rfl
  | offer key ttl => cases ending with
    | value v => exact flights_enterNew_given c key v ttl false
    | nothing => rfl
    | failed failure => rfl
    | panicked text => rfl
  | lead turn => exact flights_leave c turn ending

/-- It has no second computation to run. -/
theorem entered_finish (c : Cache K V) (next : Pending K V) (ending : Ending V)
    (flights : Flights K) : (c.finish next ending).1.entered flights = flights := by
  cases next with
  | store key ttl => rfl
  | offer key ttl => cases ending with
    | value v => exact entered_enterNew_given c key v ttl false flights
    | nothing => rfl
    | failed failure => rfl
    | panicked text => rfl
  | lead turn => rfl

/-! ## Scripts -/

/-- The registry is as it was, and the recency list is still in good order. -/
structure Restores (c c' : Cache K V) : Prop where
  flights : c'.store.flights = c.store.flights
  ranked : c.Ranked → c'.Ranked

/-- What restores the registry step by step restores it. -/
theorem Restores.trans {c c' c'' : Cache K V} (h : c.Restores c') (h' : c'.Restores c'') :
    c.Restores c'' where
  flights := h'.flights.trans h.flights
  ranked := fun hc => h'.ranked (h.ranked hc)

/-- A command between calls registers nothing. -/
theorem restores_command (c : Cache K V) (what : Command) : c.Restores (c.command what).2 := by
  cases what with
  | sweep =>
      rw [command_sweep]
      have hchanges : c.Changes (fun _ _ => False) c.sweep.2 := changes_sweep c
      refine ⟨?_, hchanges.ranked⟩
      rw [sweep, sweepAt]
      exact (thins_sweepWith id c.read).flights
  | advance ms => exact ⟨rfl, fun h => h.same rfl rfl⟩
  | setWall wall => exact ⟨rfl, fun h => h.same rfl rfl⟩

/-- A call does so if its computation does. -/
theorem restores_call {R : Type} (c : Cache K V) (request : Request K V)
    (produce : Cache K V → (Ending V × R) × Cache K V)
    (hproduce : ∀ d : Cache K V, d.Restores (produce d).2) :
    c.Restores (c.call request produce).2 := by
  have hbegin := c.flights_begin request
  have hranked : c.Ranked → (c.begin request).2.Ranked :=
    (c.changes_begin (P := fun _ _ => True) request fun _ _ _ => trivial).ranked
  rw [call]
  generalize c.begin request = begun at hbegin hranked
  obtain ⟨progress, begun⟩ := begun
  cases progress with
  | done result => exact ⟨hbegin, hranked⟩
  | waiting turn => exact ⟨hbegin, hranked⟩
  | producing next =>
      have hbody := hproduce begun
      have hfinish : ∀ ending, ((produce begun).2.finish next ending).2.store.flights =
          c.store.flights := by
        intro ending
        have hentered : begun.store.flights = next.entered c.store.flights := hbegin
        rw [flights_finish, hbody.flights, hentered, next.left_entered]
      refine ⟨hfinish _, fun hc => ?_⟩
      have hfinished := (produce begun).2.changes_finish (P := fun _ _ => True) next
        (produce begun).1.1 fun _ _ _ _ => trivial
      exact hfinished.ranked (hbody.ranked (hranked hc))

variable {B : Type} (view : Cache K V → B)

mutual

/-- So does everything that a client does, by induction on the calls within
    calls. -/
theorem restores_run : ∀ (act : Act K V Command) (c : Cache K V),
    c.Restores ((party view).run act c).2
  | .command what, c => by
      simp only [Party.run]
      exact c.restores_command what
  | .call request body ending, c => by
      simp only [Party.run]
      exact c.restores_call request _ fun d => restores_runAll body d

/-- A list of acts restores the registry, since each of its acts does. -/
theorem restores_runAll : ∀ (acts : List (Act K V Command)) (c : Cache K V),
    c.Restores ((party view).runAll acts c).2
  | [], c => by
      simp only [Party.runAll]
      exact ⟨rfl, id⟩
  | act :: rest, c => by
      simp only [Party.runAll]
      exact (restores_run act c).trans (restores_runAll rest _)

end

end Cache

end ExpiringCache
