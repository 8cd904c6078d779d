import ExpiringCache.Proofs.Cache.Notices

/-! # What calls leave behind

    Whatever part of whatever call is carried out, in whatever state the
    flights are, it leaves the notices of its changes.  A call that has
    fixed an expiry, and now waits or computes, has fixed one that is not
    beyond `never`, so this holds of its later parts too. -/

namespace ExpiringCache

variable {K V : Type}

/-- The expiry that a write under a flight has fixed is not beyond
    `never`. -/
def Turn.Bounded (turn : Turn K V) : Prop := ∀ expireAt ∈ turn.expireAt, expireAt ≤ never

/-- So it is for what is left of a call whose computation is running. -/
def Pending.Bounded : Pending K V → Prop
  | .lead turn => turn.Bounded
  | _ => True

/-- So it is however far a call has come. -/
def Progress.Bounded : Progress K V → Prop
  | .done _ => True
  | .producing next => next.Bounded
  | .waiting turn => turn.Bounded

namespace Cache

/-- No expiry is fixed beyond `never`. -/
theorem expiryFrom_le_never (c : Cache K V) (ttl : Duration) : (c.expiryFrom ttl).1 ≤ never :=
  ExpiringCache.expiryFrom_le_never c.now ttl

/-- A turn fixes no expiry beyond `never`. -/
theorem bounded_turn (c : Cache K V) (key : K) (payload : Payload V) (ttl : Duration)
    (asksStored : Bool) : (c.turn key payload ttl asksStored).1.Bounded := by
  rw [turn]
  split
  · intro expireAt h
    exact nomatch h
  · intro expireAt h
    cases h
    exact expiryFrom_le_never c ttl

variable [DecidableEq K]

/-! ## Reading and writing -/

theorem noted_read (c : Cache K V) : c.Noted c.read :=
  .same rfl (now_read c) rfl fun _ => rfl

theorem noted_flights (c : Cache K V) (flights : Flights K) :
    c.Noted { c with store := { c.store with flights := flights } } :=
  .same rfl rfl rfl fun _ => rfl

theorem noted_expiryFrom (c : Cache K V) (ttl : Duration) : c.Noted (c.expiryFrom ttl).2 := by
  show c.Noted (if _ then c else c.read)
  split
  · exact .refl c
  · exact noted_read c

/-- An item that is written is noted with its own expiry. -/
theorem noted_write (c : Cache K V) (key : K) (value : V) {expireAt : Int}
    (h : expireAt ≤ never) : c.Noted (c.write key value expireAt) :=
  (noted_set c key ⟨value, expireAt⟩ h).trans (noted_touch _ key)

/-- Storing with an expiry that is fixed first. -/
theorem noted_store (c : Cache K V) (key : K) (value : V) (ttl : Duration) :
    c.Noted ((c.expiryFrom ttl).2.write key value (c.expiryFrom ttl).1) :=
  (noted_expiryFrom c ttl).trans (noted_write _ key value (expiryFrom_le_never c ttl))

/-- A key that is set is noted, and so is one that a negative lifetime
    removes. -/
theorem noted_put (c : Cache K V) (key : K) (value : V) (ttl : Duration) :
    c.Noted (c.put key value ttl) := by
  rw [put]
  split
  · exact noted_remove c [key]
  · exact noted_store c key value ttl

/-- Each write of a row is noted. -/
theorem noted_foldl_write (c : Cache K V) (entries : List (K × V)) {expireAt : Int}
    (h : expireAt ≤ never) :
    c.Noted (entries.foldl (fun c entry => c.write entry.1 entry.2 expireAt) c) := by
  induction entries generalizing c with
  | nil => exact .refl c
  | cons entry rest ih => exact (noted_write c entry.1 entry.2 h).trans (ih _)

/-- Each key of a batch is noted. -/
theorem noted_putAll (c : Cache K V) (entries : List (K × V)) (ttl : Duration) :
    c.Noted (c.putAll entries ttl) := by
  rw [putAll]
  split
  · exact noted_remove c _
  · exact (noted_expiryFrom c ttl).trans
      (noted_foldl_write _ entries (expiryFrom_le_never c ttl))

/-- A look-up changes no item; the victims of its touch are noted. -/
theorem noted_get (c : Cache K V) (key : K) : c.Noted (c.get key).2 := by
  have hcounted : ∀ counters, c.Noted { c.read with counters := counters } :=
    fun _ => .same rfl (now_read c) rfl fun _ => rfl
  rw [get]
  split
  · exact (hcounted _).trans (noted_touch _ key)
  · exact hcounted _

theorem noted_contains (c : Cache K V) (key : K) : c.Noted (c.contains key).2 :=
  noted_get c key

/-- A call for an absent key that has its value at hand leaves the notice of
    its write, if it writes. -/
theorem noted_putIfAbsent (c : Cache K V) (key : K) (value : V) (ttl : Duration) :
    c.Noted (c.putIfAbsent key value ttl).2 := by
  have hcontains := noted_contains c key
  rw [putIfAbsent]
  generalize c.contains key = found at hcontains
  obtain ⟨present, c'⟩ := found
  show c.Noted (if _ then _ else _ : Bool × Cache K V).2
  split
  · exact hcontains
  · exact hcontains.trans (noted_store c' key value ttl)

theorem noted_lifetime (c : Cache K V) (key : K) : c.Noted (c.lifetime key).2 := by
  rw [lifetime]
  split
  · exact noted_read c
  · exact noted_read c

/-- Another value is no other expiry. -/
theorem noted_replace (c : Cache K V) (key : K) (value : V) :
    c.Noted (c.replace key value).2 := by
  cases hlive : c.read.store.live? c.read.now key with
  | none =>
      simp only [replace, Store.replaceValue, hlive]
      exact noted_read c
  | some item =>
      simp only [replace, Store.replaceValue, hlive]
      have hset : c.read.Noted
          { c.read with store := c.read.store.set key { item with value := value } } := by
        refine .same rfl rfl rfl fun k => ?_
        show ((c.read.store.set key _).item? k).map Item.expireAt = _
        rw [Store.item?_set]
        split
        · rename_i hk
          rw [expiry?, ← hk, (Store.live?_eq_some.mp hlive).1]
          rfl
        · rfl
      exact ((noted_read c).trans hset).trans (noted_touch _ key)

/-- Another lifetime is noted, so that the key will be filed under it. -/
theorem noted_setLifetime (c : Cache K V) (key : K) (ttl : Duration) :
    c.Noted (c.setLifetime key ttl).2 := by
  have hread := (noted_expiryFrom c ttl).trans (noted_read _)
  cases hlive : (c.expiryFrom ttl).2.read.store.live? (c.expiryFrom ttl).2.read.now key with
  | none =>
      simp only [setLifetime, Store.replaceExpiry, hlive]
      exact hread
  | some item =>
      have hspan := Item.remainingAt_ne_absent (Store.live?_eq_some.mp hlive).2
      simp only [setLifetime, Store.replaceExpiry, hlive, if_neg hspan]
      exact (hread.trans (noted_set _ key { item with expireAt := _ }
        (expiryFrom_le_never c ttl))).trans (noted_touch _ key)

/-! ## Writes under a flight -/

/-- To make a turn changes no item. -/
theorem noted_turn (c : Cache K V) (key : K) (payload : Payload V) (ttl : Duration)
    (asksStored : Bool) : c.Noted (c.turn key payload ttl asksStored).2 := by
  rw [turn]
  split
  · exact .refl c
  · exact noted_expiryFrom c ttl

/-- Where nothing was stored, there is nothing to tell but what falls off or
    is removed. -/
theorem noted_settle (c : Cache K V) (turn : Turn K V) (value : Option V) :
    c.Noted (c.settle turn value false).2 := by
  rw [settle]
  split
  · exact noted_remove c [turn.key]
  · show c.Noted (if value.isSome then c.touch turn.key else c)
    split
    · exact noted_touch c turn.key
    · exact .refl c

/-- What a leader has stored gets its notice when it is settled. -/
theorem noted_settle_stored (c : Cache K V) {turn : Turn K V} {expireAt : Int}
    (hexpire : turn.expireAt = some expireAt) (h : expireAt ≤ never) (value : V) :
    c.Noted
      (settle { c with store := c.store.set turn.key ⟨value, expireAt⟩ } turn (some value)
        true).2 := by
  have hsettle : (settle { c with store := c.store.set turn.key ⟨value, expireAt⟩ } turn
      (some value) true).2 = c.write turn.key value expireAt := by
    rw [settle, hexpire]
    rfl
  rw [hsettle]
  exact noted_write c turn.key value h

/-- Entering a flight, as the leader or as somebody who waits. -/
theorem noted_enter (c : Cache K V) {turn : Turn K V} (h : turn.Bounded) :
    c.Noted (c.enter turn).2 ∧ (c.enter turn).1.Bounded := by
  rw [enter]
  split
  · exact ⟨.refl c, h⟩
  · rename_i hfree
    split
    · cases hpayload : turn.payload with
      | given value =>
          simp only [Store.beginProduce, if_neg hfree]
          exact ⟨noted_settle c turn (some value), trivial⟩
      | produced =>
          simp only [Store.beginProduce, if_neg hfree]
          exact ⟨noted_flights c _, h⟩
    · rename_i expireAt hexpire
      have hfree' : ¬c.read.store.flights.isRunning turn.key = true := hfree
      cases hlive : c.read.store.live? c.read.now turn.key with
      | some item =>
          simp only [Store.beginSetUnlessLive, if_neg hfree', hlive]
          exact ⟨(noted_read c).trans (noted_settle c.read turn _), trivial⟩
      | none => cases hpayload : turn.payload with
        | given value =>
            simp only [Store.beginSetUnlessLive, if_neg hfree', hlive]
            exact ⟨(noted_read c).trans
              (noted_settle_stored c.read hexpire (h expireAt hexpire) value), trivial⟩
        | produced =>
            simp only [Store.beginSetUnlessLive, if_neg hfree', hlive]
            exact ⟨(noted_read c).trans (noted_flights c.read _), h⟩

/-- Who enters a flight with a turn of its own leaves the notices of what it
    does at once, and has fixed no expiry beyond `never` for later. -/
theorem noted_enterNew (c : Cache K V) (key : K) (payload : Payload V) (ttl : Duration)
    (asksStored : Bool) :
    c.Noted (c.enterNew key payload ttl asksStored).2 ∧
      (c.enterNew key payload ttl asksStored).1.Bounded := by
  obtain ⟨hnoted, hbounded⟩ := noted_enter (c.turn key payload ttl asksStored).2
    (bounded_turn c key payload ttl asksStored)
  exact ⟨(noted_turn c key payload ttl asksStored).trans hnoted, hbounded⟩

/-- Ending a flight. -/
theorem noted_leave (c : Cache K V) {turn : Turn K V} (h : turn.Bounded)
    (ending : Ending V) : c.Noted (c.leave turn ending).2 := by
  have hleft := noted_flights c (c.store.flights.leave turn.key)
  rw [leave]
  split
  · cases ending with
    | value v => exact hleft.trans (noted_settle _ turn _)
    | nothing => exact hleft.trans (noted_settle _ turn _)
    | failed failure => exact hleft.trans (noted_remove _ [turn.key])
    | panicked text => exact hleft
  · rename_i expireAt hexpire
    cases ending with
    | value v => exact hleft.trans (noted_settle_stored _ hexpire (h expireAt hexpire) v)
    | nothing => exact hleft.trans (noted_settle _ turn _)
    | failed failure => exact hleft
    | panicked text => exact hleft

/-- Who joins a flight touches the key at most, and the victims are noted. -/
theorem noted_join (c : Cache K V) (turn : Turn K V) (value : Option V) :
    c.Noted (c.join turn value).2 :=
  noted_settle c turn value

/-! ## The parts of a call -/

/-- A call for an absent key that has begun has left the notices of what it
    did, and has fixed no expiry beyond `never` for later. -/
theorem noted_beginPutIfAbsentFrom (c : Cache K V) (key : K) (ttl : Duration)
    (exclusive : Bool) :
    c.Noted (c.beginPutIfAbsentFrom key ttl exclusive).2 ∧
      (c.beginPutIfAbsentFrom key ttl exclusive).1.Bounded := by
  have hcontains := noted_contains c key
  rw [beginPutIfAbsentFrom]
  generalize c.contains key = found at hcontains
  obtain ⟨present, c'⟩ := found
  show c.Noted (if _ then _ else _ : Progress K V × Cache K V).2 ∧
    (if _ then _ else _ : Progress K V × Cache K V).1.Bounded
  split
  · exact ⟨hcontains, trivial⟩
  · split
    · obtain ⟨hnoted, hbounded⟩ := noted_enterNew c' key .produced ttl true
      exact ⟨hcontains.trans hnoted, hbounded⟩
    · exact ⟨hcontains, trivial⟩

/-- A call that reads or stores has left the notices of what it did when it
    begins, and has fixed no expiry beyond `never` for later. -/
theorem noted_beginGetOrPut (c : Cache K V) (key : K) (payload : Payload V)
    (ttl : Duration) :
    c.Noted (c.beginGetOrPut key payload ttl).2 ∧
      (c.beginGetOrPut key payload ttl).1.Bounded := by
  have hget := noted_get c key
  rw [beginGetOrPut]
  generalize c.get key = found at hget
  obtain ⟨value, c'⟩ := found
  show c.Noted (if _ then _ else _ : Progress K V × Cache K V).2 ∧
    (if _ then _ else _ : Progress K V × Cache K V).1.Bounded
  split
  · exact ⟨hget, trivial⟩
  · obtain ⟨hnoted, hbounded⟩ := noted_enterNew c' key payload ttl false
    exact ⟨hget.trans hnoted, hbounded⟩

/-- A call that reads or offers changes no item before its computation. -/
theorem noted_beginGetOrOffer (c : Cache K V) (key : K) (ttl : Duration) :
    c.Noted (c.beginGetOrOffer key ttl).2 ∧ (c.beginGetOrOffer key ttl).1.Bounded := by
  have hget := noted_get c key
  rw [beginGetOrOffer]
  generalize c.get key = found at hget
  obtain ⟨value, c'⟩ := found
  show c.Noted (if _ then _ else _ : Progress K V × Cache K V).2 ∧
    (if _ then _ else _ : Progress K V × Cache K V).1.Bounded
  split
  · exact ⟨hget, trivial⟩
  · exact ⟨hget, trivial⟩

/-- Every call but one leaves the notices of what it does at once. -/
theorem noted_begin (c : Cache K V) {request : Request K V} (h : request ≠ .clear) :
    c.Noted (c.begin request).2 ∧ (c.begin request).1.Bounded := by
  cases request with
  | put key value ttl => exact ⟨noted_put c key value ttl, trivial⟩
  | putAll entries ttl => exact ⟨noted_putAll c entries ttl, trivial⟩
  | putIfAbsent key value ttl => exact ⟨noted_putIfAbsent c key value ttl, trivial⟩
  | putIfAbsentFrom key ttl exclusive => exact noted_beginPutIfAbsentFrom c key ttl exclusive
  | get key => exact ⟨noted_get c key, trivial⟩
  | getOrPut key payload ttl => exact noted_beginGetOrPut c key payload ttl
  | getOrPutFrom key ttl exclusive => cases exclusive with
    | true => exact noted_beginGetOrPut c key .produced ttl
    | false => exact noted_beginGetOrOffer c key ttl
  | contains key => exact ⟨noted_contains c key, trivial⟩
  | lifetime key => exact ⟨noted_lifetime c key, trivial⟩
  | replace key value => exact ⟨noted_replace c key value, trivial⟩
  | setLifetime key ttl => exact ⟨noted_setLifetime c key ttl, trivial⟩
  | remove keys => exact ⟨noted_remove c keys, trivial⟩
  | size => exact ⟨.refl c, trivial⟩
  | keys => exact ⟨.refl c, trivial⟩
  | values => exact ⟨.refl c, trivial⟩
  | data => exact ⟨.refl c, trivial⟩
  | clear => exact absurd rfl h
  | close => exact ⟨.same rfl rfl rfl fun _ => rfl, trivial⟩
  | stats => exact ⟨.refl c, trivial⟩

/-- So does every call that goes on after its computation has ended. -/
theorem noted_finish (c : Cache K V) {next : Pending K V} (h : next.Bounded)
    (ending : Ending V) :
    c.Noted (c.finish next ending).2 ∧ (c.finish next ending).1.Bounded := by
  cases next with
  | store key ttl =>
      refine ⟨?_, trivial⟩
      cases ending with
      | value v => exact noted_store c key v ttl
      | nothing => exact .refl c
      | failed failure => exact .refl c
      | panicked text => exact .refl c
  | offer key ttl => cases ending with
    | value v => exact noted_enterNew c key (.given v) ttl false
    | nothing => exact ⟨.refl c, trivial⟩
    | failed failure => exact ⟨.refl c, trivial⟩
    | panicked text => exact ⟨.refl c, trivial⟩
  | lead turn => exact ⟨noted_leave c h ending, trivial⟩

end Cache

end ExpiringCache
