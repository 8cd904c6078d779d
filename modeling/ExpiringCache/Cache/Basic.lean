import ExpiringCache.Counters
import ExpiringCache.Expiry.Index
import ExpiringCache.Notice
import ExpiringCache.Recency
import ExpiringCache.Store

/-! # The cache and the calls that need no computation

    A cache consists of a store, a recency list if its capacity is bounded,
    a queue of notices and an expiry index for the janitor, usage counters,
    and the clock that all of them go by.  An entry is live while the clock
    is short of its expiry; an expired one may stay in the store until a
    sweep or a write replaces it, but no reading call answers it.

    Every call answers its result and the cache it leaves behind. -/

namespace ExpiringCache

/-- An in-process cache. -/
structure Cache (K V : Type) where
  -- the number of entries it holds at most; 0 for any number
  capacity : Nat
  clock : Clock
  store : Store K V
  -- its keys by latest use; absent if any number of entries may be held
  recency : Option (Recency K)
  -- what the janitor has not looked at yet
  notices : NoticeQueue K
  index : ExpiryIndex K
  counters : Counters
  closed : Bool
  deriving DecidableEq

namespace Cache

variable {K V : Type}

/-- A new cache for `capacity` entries, 0 for any number. -/
def new (capacity : Nat) (clock : Clock) : Cache K V where
  capacity := capacity
  clock := clock
  store := .empty
  recency := if capacity = 0 then none else some (.empty capacity)
  notices := .empty
  index := .empty
  counters := .zero
  closed := false

/-! ## The clock -/

/-- What a reading of the clock shows. -/
def now (c : Cache K V) : Int := c.clock.now

/-- The cache after a reading of its clock. -/
def read (c : Cache K V) : Cache K V := { c with clock := c.clock.read }

/-- The instant at which a lifetime that starts now ends.  The clock is not
    read for a lifetime without end. -/
def expiryFrom (c : Cache K V) (ttl : Duration) : Int × Cache K V :=
  (ExpiringCache.expiryFrom c.now ttl, if ttl.isZero then c else c.read)

/-! ## Snapshots -/

/-- The number of stored entries, expired ones included. -/
def size (c : Cache K V) : Nat := c.store.size

/-- The stored keys, expired ones included. -/
def keys (c : Cache K V) : List K := c.store.keys

/-- The stored values, expired ones included. -/
def values (c : Cache K V) : List V := c.store.values

/-- The stored keys with their values, expired ones included. -/
def data (c : Cache K V) : List (K × V) := c.store.data

/-- The counters, and the number of stored entries. -/
def stats (c : Cache K V) : Stats := c.counters.snapshot c.size

/-- Deletes all entries.  Notices and counters stay. -/
def clear (c : Cache K V) : Cache K V :=
  { c with
    store := c.store.clear
    recency := c.recency.map Recency.clear
    index := c.index.clear }

/-- Tells the janitor to stop; the cache keeps serving. -/
def close (c : Cache K V) : Cache K V := { c with closed := true }

variable [DecidableEq K]

/-! ## Keeping entries -/

/-- How far before the present the notice of a removed key is dated, so that
    no bucket that a sweep still visits is meant. -/
def removalOffset : Int := 1000000

/-- Deletes entries that fell off the recency list. -/
def dropEvicted (c : Cache K V) (evicted : List K) : Cache K V :=
  { c with
    store := evicted.foldl (fun store key => (store.delete key).2) c.store
    notices := c.notices.pushAll evicted (c.now - removalOffset)
    counters := c.counters.evicted evicted.length }

/-- Marks `key` as used now and deletes what falls off the recency list. -/
def touch (c : Cache K V) (key : K) : Cache K V :=
  match c.recency with
  | none => c
  | some recency =>
      let (evicted, recency) := recency.touch key
      let c := { c with recency := some recency }
      if evicted.isEmpty then c else c.read.dropEvicted evicted

/-- Stores an entry, leaves a notice of it and marks it as used. -/
def write (c : Cache K V) (key : K) (value : V) (expireAt : Int) : Cache K V :=
  touch
    { c with
      store := c.store.set key ⟨value, expireAt⟩
      notices := c.notices.push key expireAt }
    key

/-- Deletes several keys and answers the last of their live values. -/
def remove (c : Cache K V) (keys : List K) : Option V × Cache K V :=
  if keys.isEmpty then (none, c)
  else
    let c := c.read
    let ((deleted, last), store) := c.store.deleteAll c.now keys
    (last,
      { c with
        store := store
        notices := c.notices.pushAll deleted (c.now - removalOffset)
        recency := c.recency.map fun recency => recency.removeAll deleted })

/-- Stores `value` under `key`; a negative lifetime removes the key. -/
def put (c : Cache K V) (key : K) (value : V) (ttl : Duration) : Cache K V :=
  if ttl.isNegative then (c.remove [key]).2
  else
    let (expireAt, c) := c.expiryFrom ttl
    c.write key value expireAt

/-- Stores several entries, one after another, all with the same expiry; a
    negative lifetime removes their keys. -/
def putAll (c : Cache K V) (entries : List (K × V)) (ttl : Duration) : Cache K V :=
  if ttl.isNegative then (c.remove (entries.map Prod.fst)).2
  else
    let (expireAt, c) := c.expiryFrom ttl
    entries.foldl (fun c entry => c.write entry.1 entry.2 expireAt) c

/-! ## Reading entries -/

/-- Answers the live value of `key` and marks it as used.  Counts a hit or a
    miss. -/
def get (c : Cache K V) (key : K) : Option V × Cache K V :=
  let c := c.read
  match c.store.live? c.now key with
  | some item => (some item.value, touch { c with counters := c.counters.hit } key)
  | none => (none, { c with counters := c.counters.miss })

/-- Whether `key` is live; counts and marks like `get`. -/
def contains (c : Cache K V) (key : K) : Bool × Cache K V :=
  let (value, c) := c.get key
  (value.isSome, c)

/-- Stores `value` under `key` unless it is live; whether it was stored. -/
def putIfAbsent (c : Cache K V) (key : K) (value : V) (ttl : Duration) : Bool × Cache K V :=
  let (present, c) := c.contains key
  if present || ttl.isNegative then (false, c)
  else
    let (expireAt, c) := c.expiryFrom ttl
    (true, c.write key value expireAt)

/-- The milliseconds that `key` has left, 0 if it never expires, and
    `Store.absentSpan` if it is not live.  Neither counts nor marks. -/
def lifetime (c : Cache K V) (key : K) : Int × Cache K V :=
  let c := c.read
  match c.store.live? c.now key with
  | some item => (item.remainingAt c.now, c)
  | none => (Store.absentSpan, c)

/-! ## Changing entries -/

/-- Gives a live key another value; answers the old one. -/
def replace (c : Cache K V) (key : K) (value : V) : Option V × Cache K V :=
  let c := c.read
  let (old, store) := c.store.replaceValue c.now key value
  let c := { c with store := store }
  (old, if old.isSome then c.touch key else c)

/-- Gives a live key another lifetime, which starts now; answers what
    `lifetime` would have answered. -/
def setLifetime (c : Cache K V) (key : K) (ttl : Duration) : Int × Cache K V :=
  let (expireAt, c) := c.expiryFrom ttl
  let c := c.read
  let (span, store) := c.store.replaceExpiry c.now key expireAt
  let c := { c with store := store }
  if span = Store.absentSpan then (span, c)
  else (span, touch { c with notices := c.notices.push key expireAt } key)

end Cache

end ExpiringCache
