import ExpiringCache.Proofs.Cache.Effects

/-! # Calls on two caches at once

    What a call answers, and what it does, depends on few things: what the
    clock shows, which items are live, and which flights are in progress.
    And what it does is made of few steps.  So take a relation of caches
    whose members show the same of these things, and which every such step
    keeps if it is taken on both sides: it is `Parallel`.  Then every part of
    every call has the same answer on related caches and leaves related
    caches behind.  Snapshots are left out: they show more than what is live.

    This is proved here once, call by call; a relation of caches only has to
    be looked at step by step. -/

namespace ExpiringCache

variable {K V : Type}

/-- A call that looks at all entries, expired ones included. -/
def Request.Snapshot : Request K V → Prop
  | .size => True
  | .keys => True
  | .values => True
  | .data => True
  | .stats => True
  | _ => False

variable [DecidableEq K]

namespace Cache

/-- The same answer, and related caches. -/
def Both {α : Type} (R : Cache K V → Cache K V → Prop) (o o' : α × Cache K V) : Prop :=
  o.1 = o'.1 ∧ R o.2 o'.2

/-- Related caches show callers the same, and stay related if the same step is
    taken on both sides. -/
structure Parallel (R : Cache K V → Cache K V → Prop) : Prop where
  now : ∀ {c c'}, R c c' → c.now = c'.now
  flights : ∀ {c c'}, R c c' → c.store.flights = c'.store.flights
  live? : ∀ {c c'}, R c c' → ∀ key, c.store.live? c.now key = c'.store.live? c'.now key
  read : ∀ {c c'}, R c c' → R c.read c'.read
  hit : ∀ {c c'}, R c c' →
    R { c with counters := c.counters.hit } { c' with counters := c'.counters.hit }
  miss : ∀ {c c'}, R c c' →
    R { c with counters := c.counters.miss } { c' with counters := c'.counters.miss }
  flown : ∀ {c c'}, R c c' → ∀ fly : Flights K → Flights K,
    R { c with store := { c.store with flights := fly c.store.flights } }
      { c' with store := { c'.store with flights := fly c'.store.flights } }
  noticed : ∀ {c c'}, R c c' → ∀ key expireAt,
    R { c with notices := c.notices.push key expireAt }
      { c' with notices := c'.notices.push key expireAt }
  set : ∀ {c c'}, R c c' → ∀ key item,
    R { c with store := c.store.set key item } { c' with store := c'.store.set key item }
  touch : ∀ {c c'}, R c c' → ∀ key, R (c.touch key) (c'.touch key)
  remove : ∀ {c c'}, R c c' → ∀ keys, Both R (c.remove keys) (c'.remove keys)
  clear : ∀ {c c'}, R c c' → R c.clear c'.clear
  close : ∀ {c c'}, R c c' → R c.close c'.close

namespace Parallel

variable {R : Cache K V → Cache K V → Prop} {c c' : Cache K V}

/-! ## Reading -/

/-- Related caches see the same entries live at a reading. -/
theorem live_read (hR : Parallel R) (h : R c c') (key : K) :
    c.read.store.live? c.read.now key = c'.read.store.live? c'.read.now key :=
  hR.live? (hR.read h) key

/-- A lifetime ends at the same instant on both sides. -/
theorem expiryFrom (hR : Parallel R) (h : R c c') (ttl : Duration) :
    Both R (c.expiryFrom ttl) (c'.expiryFrom ttl) := by
  refine ⟨?_, ?_⟩
  · show ExpiringCache.expiryFrom c.now ttl = ExpiringCache.expiryFrom c'.now ttl
    rw [hR.now h]
  · show R (if _ then c else c.read) (if _ then c' else c'.read)
    split
    · exact h
    · exact hR.read h

/-- A live value is answered, and it counts the same on both sides. -/
theorem get (hR : Parallel R) (h : R c c') (key : K) : Both R (c.get key) (c'.get key) := by
  have hlive := hR.live_read h key
  cases hread : c'.read.store.live? c'.read.now key with
  | none =>
      rw [hread] at hlive
      simp only [Cache.get, hlive, hread]
      exact ⟨rfl, hR.miss (hR.read h)⟩
  | some item =>
      rw [hread] at hlive
      simp only [Cache.get, hlive, hread]
      exact ⟨rfl, hR.touch (hR.hit (hR.read h)) key⟩

/-- Related caches tell alike whether a key is live. -/
theorem contains (hR : Parallel R) (h : R c c') (key : K) :
    Both R (c.contains key) (c'.contains key) := by
  obtain ⟨hvalue, hafter⟩ := hR.get h key
  exact ⟨congrArg Option.isSome hvalue, hafter⟩

/-- Related caches tell the same lifetime. -/
theorem lifetime (hR : Parallel R) (h : R c c') (key : K) :
    Both R (c.lifetime key) (c'.lifetime key) := by
  have hlive := hR.live_read h key
  cases hread : c'.read.store.live? c'.read.now key with
  | none =>
      rw [hread] at hlive
      simp only [Cache.lifetime, hlive, hread]
      exact ⟨rfl, hR.read h⟩
  | some item =>
      rw [hread] at hlive
      simp only [Cache.lifetime, hlive, hread]
      refine ⟨?_, hR.read h⟩
      rw [hR.now (hR.read h)]

/-! ## Writing -/

/-- Related caches stay related if the same item is written to both. -/
theorem write (hR : Parallel R) (h : R c c') (key : K) (value : V) (expireAt : Int) :
    R (c.write key value expireAt) (c'.write key value expireAt) :=
  hR.touch (hR.noticed (hR.set h key ⟨value, expireAt⟩) key expireAt) key

/-- Storing with an expiry that is fixed first. -/
theorem store (hR : Parallel R) (h : R c c') (key : K) (value : V) (ttl : Duration) :
    R ((c.expiryFrom ttl).2.write key value (c.expiryFrom ttl).1)
      ((c'.expiryFrom ttl).2.write key value (c'.expiryFrom ttl).1) := by
  obtain ⟨hexpiry, hafter⟩ := hR.expiryFrom h ttl
  rw [hexpiry]
  exact hR.write hafter key value _

/-- Related caches stay related if the same key is set in both. -/
theorem put (hR : Parallel R) (h : R c c') (key : K) (value : V) (ttl : Duration) :
    R (c.put key value ttl) (c'.put key value ttl) := by
  rw [Cache.put, Cache.put]
  split
  · exact (hR.remove h [key]).2
  · exact hR.store h key value ttl

/-- Related caches stay related through the same row of writes. -/
theorem foldl_write (hR : Parallel R) (h : R c c') (entries : List (K × V)) (expireAt : Int) :
    R (entries.foldl (fun c entry => c.write entry.1 entry.2 expireAt) c)
      (entries.foldl (fun c entry => c.write entry.1 entry.2 expireAt) c') := by
  induction entries generalizing c c' with
  | nil => exact h
  | cons entry rest ih => exact ih (hR.write h entry.1 entry.2 expireAt)

/-- Related caches stay related if the same batch is set in both. -/
theorem putAll (hR : Parallel R) (h : R c c') (entries : List (K × V)) (ttl : Duration) :
    R (c.putAll entries ttl) (c'.putAll entries ttl) := by
  obtain ⟨hexpiry, hafter⟩ := hR.expiryFrom h ttl
  have hwritten := hR.foldl_write hafter entries (c.expiryFrom ttl).1
  rw [Cache.putAll, Cache.putAll]
  split
  · exact (hR.remove h _).2
  · generalize c.expiryFrom ttl = fixed at hexpiry hwritten
    generalize c'.expiryFrom ttl = fixed' at hexpiry hwritten
    obtain ⟨expireAt, d⟩ := fixed
    obtain ⟨expireAt', d'⟩ := fixed'
    cases hexpiry
    exact hwritten

/-- Related caches agree whether a key is absent, and store a value or do not. -/
theorem putIfAbsent (hR : Parallel R) (h : R c c') (key : K) (value : V) (ttl : Duration) :
    Both R (c.putIfAbsent key value ttl) (c'.putIfAbsent key value ttl) := by
  obtain ⟨hpresent, hafter⟩ := hR.contains h key
  rw [Cache.putIfAbsent, Cache.putIfAbsent]
  generalize c.contains key = found at hpresent hafter
  generalize c'.contains key = found' at hpresent hafter
  obtain ⟨present, d⟩ := found
  obtain ⟨present', d'⟩ := found'
  cases hpresent
  show Both R (if _ then _ else _) (if _ then _ else _)
  split
  · exact ⟨rfl, hafter⟩
  · exact ⟨rfl, hR.store hafter key value ttl⟩

/-! ## Changing -/

/-- Related caches replace a value or do not, and answer with the same one. -/
theorem replace (hR : Parallel R) (h : R c c') (key : K) (value : V) :
    Both R (c.replace key value) (c'.replace key value) := by
  have hlive := hR.live_read h key
  cases hread : c'.read.store.live? c'.read.now key with
  | none =>
      rw [hread] at hlive
      simp only [Cache.replace, Store.replaceValue, hlive, hread]
      exact ⟨rfl, hR.read h⟩
  | some item =>
      rw [hread] at hlive
      simp only [Cache.replace, Store.replaceValue, hlive, hread]
      exact ⟨rfl, hR.touch (hR.set (hR.read h) key { item with value := value }) key⟩

/-- Related caches give a key another lifetime or do not, and tell the same
    old one. -/
theorem setLifetime (hR : Parallel R) (h : R c c') (key : K) (ttl : Duration) :
    Both R (c.setLifetime key ttl) (c'.setLifetime key ttl) := by
  obtain ⟨hexpiry, hafter⟩ := hR.expiryFrom h ttl
  have hlive := hR.live_read hafter key
  cases hread : (c'.expiryFrom ttl).2.read.store.live? (c'.expiryFrom ttl).2.read.now key with
  | none =>
      rw [hread] at hlive
      simp only [Cache.setLifetime, Store.replaceExpiry, hlive, hread]
      exact ⟨rfl, hR.read hafter⟩
  | some item =>
      rw [hread] at hlive
      have hspan := Item.remainingAt_ne_absent (Store.live?_eq_some.mp hlive).2
      have hspan' := Item.remainingAt_ne_absent (Store.live?_eq_some.mp hread).2
      simp only [Cache.setLifetime, Store.replaceExpiry, hlive, hread, if_neg hspan,
        if_neg hspan', hexpiry]
      refine ⟨?_, hR.touch (hR.noticed (hR.set (hR.read hafter) key
        { item with expireAt := (c'.expiryFrom ttl).1 }) key (c'.expiryFrom ttl).1) key⟩
      rw [hR.now (hR.read hafter)]

/-! ## Writes under a flight -/

/-- Related caches make the same turn, as they fix the same expiry. -/
theorem turn (hR : Parallel R) (h : R c c') (key : K) (payload : Payload V) (ttl : Duration)
    (asksStored : Bool) :
    Both R (c.turn key payload ttl asksStored) (c'.turn key payload ttl asksStored) := by
  obtain ⟨hexpiry, hafter⟩ := hR.expiryFrom h ttl
  rw [Cache.turn, Cache.turn]
  split
  · exact ⟨rfl, h⟩
  · refine ⟨?_, hafter⟩
    show (⟨key, payload, some (c.expiryFrom ttl).1, asksStored⟩ : Turn K V) = _
    rw [hexpiry]

/-- Related caches do the same with the value of a turn. -/
theorem settle (hR : Parallel R) (h : R c c') (turn : Turn K V) (value : Option V)
    (stored : Bool) : Both R (c.settle turn value stored) (c'.settle turn value stored) := by
  rw [Cache.settle, Cache.settle]
  split
  · exact ⟨rfl, (hR.remove h [turn.key]).2⟩
  · rename_i expireAt _
    have hnoticed : R
        (if stored then { c with notices := c.notices.push turn.key expireAt } else c)
        (if stored then { c' with notices := c'.notices.push turn.key expireAt } else c') := by
      split
      · exact hR.noticed h _ _
      · exact h
    refine ⟨rfl, ?_⟩
    show R (if value.isSome then Cache.touch _ turn.key else _)
      (if value.isSome then Cache.touch _ turn.key else _)
    split
    · exact hR.touch hnoticed turn.key
    · exact hnoticed

/-- An answer that is handed on after its value is settled. -/
theorem settle_reply (hR : Parallel R) (h : R c c') (turn : Turn K V) (value : Option V)
    (stored : Bool) :
    Both R (Progress.reply (c.settle turn value stored).1, (c.settle turn value stored).2)
      (Progress.reply (c'.settle turn value stored).1, (c'.settle turn value stored).2) := by
  obtain ⟨hreply, hafter⟩ := hR.settle h turn value stored
  exact ⟨congrArg Progress.reply hreply, hafter⟩

/-- Related caches have the same flights, so a turn leads in both or joins in
    both. -/
theorem enter (hR : Parallel R) (h : R c c') (turn : Turn K V) :
    Both R (c.enter turn) (c'.enter turn) := by
  have hrunning : c.store.flights.isRunning turn.key = c'.store.flights.isRunning turn.key :=
    congrArg (Flights.isRunning · turn.key) (hR.flights h)
  have hlive := hR.live_read h turn.key
  cases hfree : c'.store.flights.isRunning turn.key with
  | true =>
      rw [hfree] at hrunning
      simp only [Cache.enter, hrunning, hfree, if_true]
      exact ⟨rfl, h⟩
  | false =>
      rw [hfree] at hrunning
      have hrunning' : c.read.store.flights.isRunning turn.key = false := hrunning
      have hfree' : c'.read.store.flights.isRunning turn.key = false := hfree
      cases hexpire : turn.expireAt with
      | none => cases hpayload : turn.payload with
        | given value =>
            simp only [Cache.enter, Store.beginProduce, hrunning, hfree, hexpire, hpayload,
              Bool.false_eq_true, if_false]
            exact hR.settle_reply h turn (some value) false
        | produced =>
            simp only [Cache.enter, Store.beginProduce, hrunning, hfree, hexpire, hpayload,
              Bool.false_eq_true, if_false]
            exact ⟨rfl, hR.flown h fun flights => flights.enter turn.key⟩
      | some expireAt => cases hread : c'.read.store.live? c'.read.now turn.key with
        | some item =>
            rw [hread] at hlive
            simp only [Cache.enter, Store.beginSetUnlessLive, hrunning, hfree, hrunning', hfree',
              hexpire, hlive, hread, Bool.false_eq_true, if_false]
            exact hR.settle_reply (hR.read h) turn (some item.value) false
        | none => cases hpayload : turn.payload with
          | given value =>
              rw [hread] at hlive
              simp only [Cache.enter, Store.beginSetUnlessLive, hrunning, hfree, hrunning',
                hfree', hexpire, hlive, hread, hpayload, Bool.false_eq_true, if_false]
              exact hR.settle_reply (hR.set (hR.read h) turn.key ⟨value, expireAt⟩) turn
                (some value) true
          | produced =>
              rw [hread] at hlive
              simp only [Cache.enter, Store.beginSetUnlessLive, hrunning, hfree, hrunning',
                hfree', hexpire, hlive, hread, hpayload, Bool.false_eq_true, if_false]
              exact ⟨rfl, hR.flown (hR.read h) fun flights => flights.enter turn.key⟩

/-- Who enters a flight with a turn of its own fares alike on related caches. -/
theorem enterNew (hR : Parallel R) (h : R c c') (key : K) (payload : Payload V)
    (ttl : Duration) (asksStored : Bool) :
    Both R (c.enterNew key payload ttl asksStored)
      (c'.enterNew key payload ttl asksStored) := by
  obtain ⟨hturn, hafter⟩ := hR.turn h key payload ttl asksStored
  have hentered := hR.enter hafter (c.turn key payload ttl asksStored).1
  rw [Cache.enterNew, Cache.enterNew]
  generalize c.turn key payload ttl asksStored = taken at hturn hentered
  generalize c'.turn key payload ttl asksStored = taken' at hturn hentered
  obtain ⟨turn, d⟩ := taken
  obtain ⟨turn', d'⟩ := taken'
  cases hturn
  exact hentered

/-- Who leads a flight ends it alike on related caches, whatever its
    computation has come to. -/
theorem leave (hR : Parallel R) (h : R c c') (turn : Turn K V) (ending : Ending V) :
    Both R (c.leave turn ending) (c'.leave turn ending) := by
  have hleft := hR.flown h fun flights => flights.leave turn.key
  cases hexpire : turn.expireAt with
  | none => cases ending with
    | value v =>
        obtain ⟨hreply, hafter⟩ := hR.settle hleft turn (some v) false
        simp only [Cache.leave, hexpire, Store.endProduce, Ending.toExcept]
        exact ⟨congrArg Except.ok hreply, hafter⟩
    | nothing =>
        obtain ⟨hreply, hafter⟩ := hR.settle hleft turn none false
        simp only [Cache.leave, hexpire, Store.endProduce, Ending.toExcept]
        exact ⟨congrArg Except.ok hreply, hafter⟩
    | failed failure =>
        simp only [Cache.leave, hexpire, Store.endProduce, Ending.toExcept]
        exact ⟨rfl, (hR.remove hleft [turn.key]).2⟩
    | panicked text =>
        simp only [Cache.leave, hexpire, Store.endProduce, Ending.toExcept]
        exact ⟨rfl, hleft⟩
  | some expireAt => cases ending with
    | value v =>
        obtain ⟨hreply, hafter⟩ :=
          hR.settle (hR.set hleft turn.key ⟨v, expireAt⟩) turn (some v) true
        simp only [Cache.leave, hexpire, Store.endSetUnlessLive, Ending.toExcept, Except.map]
        exact ⟨congrArg Except.ok hreply, hafter⟩
    | nothing =>
        obtain ⟨hreply, hafter⟩ := hR.settle hleft turn none false
        simp only [Cache.leave, hexpire, Store.endSetUnlessLive, Ending.toExcept, Except.map]
        exact ⟨congrArg Except.ok hreply, hafter⟩
    | failed failure =>
        simp only [Cache.leave, hexpire, Store.endSetUnlessLive, Ending.toExcept, Except.map]
        exact ⟨rfl, hleft⟩
    | panicked text =>
        simp only [Cache.leave, hexpire, Store.endSetUnlessLive, Ending.toExcept, Except.map]
        exact ⟨rfl, hleft⟩

/-! ## The parts of a call -/

/-- A call for an absent key begins alike on related caches. -/
theorem beginPutIfAbsentFrom (hR : Parallel R) (h : R c c') (key : K) (ttl : Duration)
    (exclusive : Bool) :
    Both R (c.beginPutIfAbsentFrom key ttl exclusive)
      (c'.beginPutIfAbsentFrom key ttl exclusive) := by
  obtain ⟨hpresent, hafter⟩ := hR.contains h key
  rw [Cache.beginPutIfAbsentFrom, Cache.beginPutIfAbsentFrom]
  generalize c.contains key = found at hpresent hafter
  generalize c'.contains key = found' at hpresent hafter
  obtain ⟨present, d⟩ := found
  obtain ⟨present', d'⟩ := found'
  cases hpresent
  show Both R (if _ then _ else _) (if _ then _ else _)
  split
  · exact ⟨rfl, hafter⟩
  · split
    · exact hR.enterNew hafter key .produced ttl true
    · exact ⟨rfl, hafter⟩

/-- A call that reads or stores begins alike on related caches. -/
theorem beginGetOrPut (hR : Parallel R) (h : R c c') (key : K) (payload : Payload V)
    (ttl : Duration) :
    Both R (c.beginGetOrPut key payload ttl) (c'.beginGetOrPut key payload ttl) := by
  obtain ⟨hvalue, hafter⟩ := hR.get h key
  rw [Cache.beginGetOrPut, Cache.beginGetOrPut]
  generalize c.get key = found at hvalue hafter
  generalize c'.get key = found' at hvalue hafter
  obtain ⟨value, d⟩ := found
  obtain ⟨value', d'⟩ := found'
  cases hvalue
  show Both R (if _ then _ else _) (if _ then _ else _)
  split
  · exact ⟨rfl, hafter⟩
  · exact hR.enterNew hafter key payload ttl false

/-- A call that reads or offers begins alike on related caches. -/
theorem beginGetOrOffer (hR : Parallel R) (h : R c c') (key : K) (ttl : Duration) :
    Both R (c.beginGetOrOffer key ttl) (c'.beginGetOrOffer key ttl) := by
  obtain ⟨hvalue, hafter⟩ := hR.get h key
  rw [Cache.beginGetOrOffer, Cache.beginGetOrOffer]
  generalize c.get key = found at hvalue hafter
  generalize c'.get key = found' at hvalue hafter
  obtain ⟨value, d⟩ := found
  obtain ⟨value', d'⟩ := found'
  cases hvalue
  show Both R (if _ then _ else _) (if _ then _ else _)
  split
  · exact ⟨rfl, hafter⟩
  · exact ⟨rfl, hafter⟩

omit [DecidableEq K] in
/-- An answer in the form of a reply. -/
theorem reply {α : Type} {o o' : α × Cache K V} (h : Both R o o') (say : α → Reply K V) :
    Both R (Progress.reply (say o.1), o.2) (Progress.reply (say o'.1), o'.2) :=
  ⟨congrArg (fun a => Progress.reply (say a)) h.1, h.2⟩

/-- A call that is no snapshot is answered alike. -/
theorem begin (hR : Parallel R) (h : R c c') {request : Request K V}
    (hrequest : ¬request.Snapshot) : Both R (c.begin request) (c'.begin request) := by
  cases request with
  | put key value ttl => exact ⟨rfl, hR.put h key value ttl⟩
  | putAll entries ttl => exact ⟨rfl, hR.putAll h entries ttl⟩
  | putIfAbsent key value ttl => exact reply (hR.putIfAbsent h key value ttl) .flag
  | putIfAbsentFrom key ttl exclusive => exact hR.beginPutIfAbsentFrom h key ttl exclusive
  | get key => exact reply (hR.get h key) .value
  | getOrPut key payload ttl => exact hR.beginGetOrPut h key payload ttl
  | getOrPutFrom key ttl exclusive => cases exclusive with
    | true => exact hR.beginGetOrPut h key .produced ttl
    | false => exact hR.beginGetOrOffer h key ttl
  | contains key => exact reply (hR.contains h key) .flag
  | lifetime key => exact reply (hR.lifetime h key) .span
  | replace key value =>
      exact reply (hR.replace h key value) fun old => .replaced old old.isSome
  | setLifetime key ttl => exact reply (hR.setLifetime h key ttl) .span
  | remove keys => exact reply (hR.remove h keys) .value
  | clear => exact ⟨rfl, hR.clear h⟩
  | close => exact ⟨rfl, hR.close h⟩
  | _ => exact absurd trivial hrequest

/-- A snapshot changes nothing. -/
theorem begin_snapshot (h : R c c') {request : Request K V} (hrequest : request.Snapshot) :
    R (c.begin request).2 (c'.begin request).2 := by
  cases request with
  | size => exact h
  | keys => exact h
  | values => exact h
  | data => exact h
  | stats => exact h
  | _ => exact hrequest.elim

/-- A call goes on alike on related caches after the same ending of its
    computation. -/
theorem finish (hR : Parallel R) (h : R c c') (next : Pending K V) (ending : Ending V) :
    Both R (c.finish next ending) (c'.finish next ending) := by
  cases next with
  | store key ttl => cases ending with
    | value v => exact ⟨rfl, hR.store h key v ttl⟩
    | nothing => exact ⟨rfl, h⟩
    | failed failure => exact ⟨rfl, h⟩
    | panicked text => exact ⟨rfl, h⟩
  | offer key ttl => cases ending with
    | value v => exact hR.enterNew h key (.given v) ttl false
    | nothing => exact ⟨rfl, h⟩
    | failed failure => exact ⟨rfl, h⟩
    | panicked text => exact ⟨rfl, h⟩
  | lead turn =>
      obtain ⟨hresult, hafter⟩ := hR.leave h turn ending
      exact ⟨congrArg Progress.done hresult, hafter⟩

end Parallel

end Cache

end ExpiringCache
