import ExpiringCache.Cache.Basic

/-! # Calls on a cache

    A `Request` names a call with its arguments.  Some calls run a
    computation of the caller, and some may have to wait for one that is in
    progress.  A call is therefore carried out in parts: `begin` takes it to
    its end, to the point where the computation is to run, or to the point
    where it has to wait; `finish` takes it on once the computation has
    ended; `join` and `enter` take it on once the awaited outcome is there.

    Between the parts the cache is free for other calls: those of the
    computation itself, and those of other callers.  `call` puts the parts
    together for a caller that is alone. -/

namespace ExpiringCache

/-- A call with its arguments. -/
inductive Request (K V : Type) where
  | put (key : K) (value : V) (ttl : Duration)
  | putAll (entries : List (K × V)) (ttl : Duration)
  | putIfAbsent (key : K) (value : V) (ttl : Duration)
  -- store a computed value unless the key is live; if `exclusive`, under the key's flight
  | putIfAbsentFrom (key : K) (ttl : Duration) (exclusive : Bool)
  | get (key : K)
  | getOrPut (key : K) (payload : Payload V) (ttl : Duration)
  -- answer the live value, or store and answer a computed one; if `exclusive`, the computation
  -- runs under the key's flight
  | getOrPutFrom (key : K) (ttl : Duration) (exclusive : Bool)
  | contains (key : K)
  | lifetime (key : K)
  | replace (key : K) (value : V)
  | setLifetime (key : K) (ttl : Duration)
  | remove (keys : List K)
  | size
  | keys
  | values
  | data
  | clear
  | close
  | stats
  deriving DecidableEq

/-- The result of a call. -/
inductive Reply (K V : Type) where
  | done
  | flag (b : Bool)
  | value (v : Option V)
  | replaced (old : Option V) (existed : Bool)
  | span (ms : Int)
  | count (n : Nat)
  | keys (keys : List K)
  | values (values : List V)
  | data (entries : List (K × V))
  | stats (s : Stats)
  deriving DecidableEq

/-- A write under the flight of its key. -/
structure Turn (K V : Type) where
  key : K
  payload : Payload V
  -- when the entry expires; absent for a negative lifetime, under which the value is obtained
  -- and answered, and the key removed
  expireAt : Option Int
  -- whether the caller asked if something was stored, not for the value
  asksStored : Bool
  deriving DecidableEq

/-- What a call does once the caller's computation has ended. -/
inductive Pending (K V : Type) where
  | store (key : K) (ttl : Duration)
  -- store the value under the flight of its key, unless the key is live
  | offer (key : K) (ttl : Duration)
  -- end the flight that it leads
  | lead (turn : Turn K V)
  deriving DecidableEq

/-- How far a call has come. -/
inductive Progress (K V : Type) where
  | done (result : Except Fault (Reply K V))
  | producing (next : Pending K V)
  | waiting (turn : Turn K V)

namespace Progress

variable {K V : Type}

/-- A call that is over and has a reply. -/
def reply (r : Reply K V) : Progress K V := .done (.ok r)

/-- The result of a call that nobody takes on any more. -/
def result : Progress K V → Except Fault (Reply K V)
  | .done result => result
  | .producing _ => .error .stuck
  | .waiting _ => .error .stuck

end Progress

/-- The reply to the caller of a write under a flight. -/
def Turn.reply {K V : Type} (turn : Turn K V) (value : Option V) (stored : Bool) : Reply K V :=
  if turn.asksStored then .flag stored else .value value

namespace Cache

variable {K V : Type} [DecidableEq K]

/-! ## Writes under a flight -/

/-- Prepares a write under the flight of `key`.  The expiry is fixed here,
    before anything is waited for or computed. -/
def turn (c : Cache K V) (key : K) (payload : Payload V) (ttl : Duration)
    (asksStored : Bool) : Turn K V × Cache K V :=
  if ttl.isNegative then (⟨key, payload, none, asksStored⟩, c)
  else
    let (expireAt, c) := c.expiryFrom ttl
    (⟨key, payload, some expireAt, asksStored⟩, c)

/-- What remains to be done when the value is settled: leave a notice if it
    was stored by this call, mark the key as used if it has a value; and
    remove the key if the lifetime is negative. -/
def settle (c : Cache K V) (turn : Turn K V) (value : Option V) (stored : Bool) :
    Reply K V × Cache K V :=
  match turn.expireAt with
  | none => (turn.reply value false, (c.remove [turn.key]).2)
  | some expireAt =>
      let c := if stored then { c with notices := c.notices.push turn.key expireAt } else c
      (turn.reply value stored, if value.isSome then c.touch turn.key else c)

/-- Looks up the flight of the key: waits for it if it is in progress, and
    leads it otherwise.  A leader that stores looks again whether the key is
    live. -/
def enter (c : Cache K V) (turn : Turn K V) : Progress K V × Cache K V :=
  if c.store.flights.isRunning turn.key then (.waiting turn, c)
  else
    match turn.expireAt with
    | none =>
        match c.store.beginProduce turn.key turn.payload with
        | (.done value, store) =>
            let (reply, c) := settle { c with store := store } turn value false
            (.reply reply, c)
        | (.producing, store) => (.producing (.lead turn), { c with store := store })
        | (.waiting, store) => (.waiting turn, { c with store := store })
    | some expireAt =>
        let c := c.read
        match c.store.beginSetUnlessLive c.now turn.key turn.payload expireAt with
        | (.done (value, stored), store) =>
            let (reply, c) := settle { c with store := store } turn value stored
            (.reply reply, c)
        | (.producing, store) => (.producing (.lead turn), { c with store := store })
        | (.waiting, store) => (.waiting turn, { c with store := store })

/-- Ends the flight of a leader whose computation has ended.  Under a
    negative lifetime the key is removed even if the computation failed, but
    not if it panicked. -/
def leave (c : Cache K V) (turn : Turn K V) (ending : Ending V) :
    Except Fault (Reply K V) × Cache K V :=
  match turn.expireAt with
  | none =>
      let (result, store) := c.store.endProduce turn.key ending
      let c := { c with store := store }
      match result with
      | .error (.error e) => (.error (.error e), (c.remove [turn.key]).2)
      | .error fault => (.error fault, c)
      | .ok value =>
          let (reply, c) := c.settle turn value false
          (.ok reply, c)
  | some expireAt =>
      let (result, store) := c.store.endSetUnlessLive turn.key expireAt ending
      let c := { c with store := store }
      match result with
      | .error fault => (.error fault, c)
      | .ok (value, stored) =>
          let (reply, c) := c.settle turn value stored
          (.ok reply, c)

/-- Takes the value of the leader that was waited for. -/
def join (c : Cache K V) (turn : Turn K V) (value : Option V) : Reply K V × Cache K V :=
  c.settle turn value false

/-! ## The parts of a call -/

/-- Prepares a write under the flight of `key` and enters the flight. -/
def enterNew (c : Cache K V) (key : K) (payload : Payload V) (ttl : Duration)
    (asksStored : Bool) : Progress K V × Cache K V :=
  let (turn, c) := c.turn key payload ttl asksStored
  c.enter turn

/-- Begins to store a computed value unless the key is live. -/
def beginPutIfAbsentFrom (c : Cache K V) (key : K) (ttl : Duration) (exclusive : Bool) :
    Progress K V × Cache K V :=
  let (present, c) := c.contains key
  if present || ttl.isNegative then (.reply (.flag false), c)
  else if exclusive then c.enterNew key .produced ttl true
  else (.producing (.store key ttl), c)

/-- Begins to answer the live value or else to store the payload under the
    key's flight. -/
def beginGetOrPut (c : Cache K V) (key : K) (payload : Payload V) (ttl : Duration) :
    Progress K V × Cache K V :=
  let (value, c) := c.get key
  if value.isSome then (.reply (.value value), c) else c.enterNew key payload ttl false

/-- Begins to answer the live value or else to compute one outside any
    flight. -/
def beginGetOrOffer (c : Cache K V) (key : K) (ttl : Duration) : Progress K V × Cache K V :=
  let (value, c) := c.get key
  if value.isSome then (.reply (.value value), c) else (.producing (.offer key ttl), c)

/-- Carries a call out as far as it gets without anybody else. -/
def begin (c : Cache K V) : Request K V → Progress K V × Cache K V
  | .put key value ttl => (.reply .done, c.put key value ttl)
  | .putAll entries ttl => (.reply .done, c.putAll entries ttl)
  | .putIfAbsent key value ttl =>
      let (stored, c) := c.putIfAbsent key value ttl
      (.reply (.flag stored), c)
  | .putIfAbsentFrom key ttl exclusive => c.beginPutIfAbsentFrom key ttl exclusive
  | .get key =>
      let (value, c) := c.get key
      (.reply (.value value), c)
  | .getOrPut key payload ttl => c.beginGetOrPut key payload ttl
  | .getOrPutFrom key ttl true => c.beginGetOrPut key .produced ttl
  | .getOrPutFrom key ttl false => c.beginGetOrOffer key ttl
  | .contains key =>
      let (present, c) := c.contains key
      (.reply (.flag present), c)
  | .lifetime key =>
      let (span, c) := c.lifetime key
      (.reply (.span span), c)
  | .replace key value =>
      let (old, c) := c.replace key value
      (.reply (.replaced old old.isSome), c)
  | .setLifetime key ttl =>
      let (span, c) := c.setLifetime key ttl
      (.reply (.span span), c)
  | .remove keys =>
      let (last, c) := c.remove keys
      (.reply (.value last), c)
  | .size => (.reply (.count c.size), c)
  | .keys => (.reply (.keys c.keys), c)
  | .values => (.reply (.values c.values), c)
  | .data => (.reply (.data c.data), c)
  | .clear => (.reply .done, c.clear)
  | .close => (.reply .done, c.close)
  | .stats => (.reply (.stats c.stats), c)

/-- Stores what a computation outside any flight came to, if it is a value. -/
def finishStore (c : Cache K V) (key : K) (ttl : Duration) (ending : Ending V) :
    Except Fault (Reply K V) × Cache K V :=
  match ending.toExcept with
  | .error fault => (.error fault, c)
  | .ok none => (.ok (.flag false), c)
  | .ok (some value) =>
      let (expireAt, c) := c.expiryFrom ttl
      (.ok (.flag true), c.write key value expireAt)

/-- Enters the key's flight with what a computation outside it came to, if
    that is a value. -/
def finishOffer (c : Cache K V) (key : K) (ttl : Duration) (ending : Ending V) :
    Progress K V × Cache K V :=
  match ending.toExcept with
  | .error fault => (.done (.error fault), c)
  | .ok none => (.reply (.value none), c)
  | .ok (some value) => c.enterNew key (.given value) ttl false

/-- Takes a call on after the caller's computation has ended. -/
def finish (c : Cache K V) (next : Pending K V) (ending : Ending V) :
    Progress K V × Cache K V :=
  match next with
  | .store key ttl =>
      let (result, c) := c.finishStore key ttl ending
      (.done result, c)
  | .offer key ttl => c.finishOffer key ttl ending
  | .lead turn =>
      let (result, c) := c.leave turn ending
      (.done result, c)

/-- Carries out a call of a caller that is alone, where `produce` is what
    its computation does to the cache, how it ends, and what is to be kept of
    it.  Answers the result and, if the computation has run, what is kept. -/
def call {R : Type} (c : Cache K V) (request : Request K V)
    (produce : Cache K V → (Ending V × R) × Cache K V) :
    (Except Fault (Reply K V) × Option R) × Cache K V :=
  match c.begin request with
  | (.producing next, c) =>
      let ((ending, kept), c) := produce c
      let (progress, c) := c.finish next ending
      ((progress.result, some kept), c)
  | (progress, c) => ((progress.result, none), c)

end Cache

end ExpiringCache
