import ExpiringCache.Cache.Basic

/-! # Sweeps

    The janitor forgets expired entries.  A sweep first works off the
    notices: a key that is expired is deleted at once, a key that is gone
    leaves the index, and a live key is filed under its bucket.  Then it
    deletes the buckets that elapsed during the scan window and looks at
    each of their keys: expired ones are deleted, and a key whose expiry
    moved on is filed anew.

    The keys of one bucket come in no particular order, so a sweep is given
    the order in which it visits them. -/

namespace ExpiringCache

/-- What a sweep did. -/
structure SweepReport where
  notices : Nat
  expired : Nat
  deriving DecidableEq, Repr

/-- Whether a periodic job is to go on. -/
inductive Control where
  | goOn
  | stop
  deriving DecidableEq, Repr

namespace Cache

variable {K V : Type} [DecidableEq K]

/-- Deletes `key` with its place in the recency list if it is expired at
    `now`; whether it was. -/
def collect (c : Cache K V) (now : Int) (key : K) : Bool × Cache K V :=
  match c.store.deleteExpired now key with
  | (false, _) => (false, c)
  | (true, store) =>
      (true,
        { c with
          store := store
          recency := c.recency.map fun recency => recency.remove key })

/-- Works off one notice, where `oldest` is the oldest bucket that this sweep
    visits; whether an entry was deleted. -/
def handleNotice (c : Cache K V) (now oldest : Int) (notice : Notice K) : Bool × Cache K V :=
  match c.store.item? notice.key with
  | none =>
      (false,
        { c with
          recency := c.recency.map fun recency => recency.remove notice.key
          index := c.index.unindex notice.key })
  | some item =>
      if item.isExpiredAt now then
        let (deleted, c) := c.collect now notice.key
        (deleted, { c with index := c.index.unindex notice.key })
      else
        -- A notice older than the window is that of a removed key, which
        -- has been stored again since.
        let noticed := bucketOf notice.expireAt
        let bucket := if noticed < oldest then bucketOf item.expireAt else noticed
        (false, { c with index := (c.index.reindex notice.key bucket).2 })

/-- Looks at one key of the deleted bucket `bucket`; whether its entry was
    deleted. -/
def visit (c : Cache K V) (now bucket : Int) (key : K) : Bool × Cache K V :=
  match c.store.live? now key with
  | some item =>
      if c.index.bucket key = bucket then
        (false, { c with index := (c.index.reindex key (bucketOf item.expireAt)).2 })
      else (false, c)
  | none =>
      let (deleted, c) := c.collect now key
      if deleted || !c.store.contains key then
        (deleted, { c with index := (c.index.unassignFrom key bucket).2 })
      else (deleted, c)

/-- Does `step` for each element of a list and counts how often it says so. -/
def tally {α : Type} (step : Cache K V → α → Bool × Cache K V) :
    List α → Cache K V → Nat × Cache K V
  | [], c => (0, c)
  | a :: rest, c =>
      let (counted, c) := step c a
      let (count, c) := tally step rest c
      (if counted then count + 1 else count, c)

/-- Deletes one elapsed bucket and visits its keys, in the order that `order`
    puts them; the number of entries deleted. -/
def scan (order : List K → List K) (c : Cache K V) (now bucket : Int) : Nat × Cache K V :=
  match c.index.deleteBucket bucket with
  | (none, _) => (0, c)
  | (some keys, index) =>
      tally (fun c key => c.visit now bucket key) (order keys) { c with index := index }

/-- Deletes the elapsed buckets `current - offset · bucketWidth` for the
    given offsets; the number of entries deleted. -/
def scanAll (order : List K → List K) (now current : Int) :
    List Int → Cache K V → Nat × Cache K V
  | [], c => (0, c)
  | offset :: rest, c =>
      let (deleted, c) := c.scan order now (current - offset * bucketWidth)
      let (more, c) := scanAll order now current rest c
      (deleted + more, c)

/-- The offsets of the elapsed buckets that a sweep visits. -/
def scanOffsets : List Int := (List.range scanWindow).map fun i => Int.ofNat (i + 1)

/-- Forgets what is expired at `now`, visiting the keys of a bucket in the
    order that `order` puts them. -/
def sweepWith (order : List K → List K) (c : Cache K V) (now : Int) :
    SweepReport × Cache K V :=
  let current := bucketOf now
  let oldest := current - Int.ofNat scanWindow * bucketWidth
  let (notices, queue) := c.notices.drain
  let (noticed, c) := tally (fun c notice => c.handleNotice now oldest notice) notices
    { c with notices := queue }
  let (scanned, c) := scanAll order now current scanOffsets c
  let expired := noticed + scanned
  (⟨notices.length, expired⟩, { c with counters := c.counters.swept expired })

/-- Forgets what is expired at `now`. -/
def sweepAt (c : Cache K V) (now : Int) : SweepReport × Cache K V := c.sweepWith id now

/-- Forgets what is expired by the clock. -/
def sweep (c : Cache K V) : SweepReport × Cache K V := c.read.sweepAt c.now

/-- One tick of the janitor: a sweep, unless the cache is closed. -/
def tick (c : Cache K V) : Control × Cache K V :=
  if c.closed then (.stop, c) else (.goOn, c.sweep.2)

end Cache

end ExpiringCache
