import ExpiringCache.Script

/-! # Plain caches

    A plain cache is one list: its entries, the coldest first, at most one
    for each key.  There are no notices, no index and no recency list beside
    the entries, so the list says in few words what the calls of a cache
    come to.  Only one thing cannot be read off it: which of the expired
    entries a sweep finds.  A plain cache is told which ones to forget. -/

namespace ExpiringCache

/-- A cache that is one list. -/
structure PlainCache (K V : Type) where
  -- the number of entries it holds at most; 0 for any number
  capacity : Nat
  clock : Clock
  entries : List (K × Item V)

namespace PlainCache

variable {K V : Type}

/-- A new plain cache for `capacity` entries, 0 for any number. -/
def new (capacity : Nat) (clock : Clock) : PlainCache K V := ⟨capacity, clock, []⟩

/-- What a reading of the clock shows. -/
def now (c : PlainCache K V) : Int := c.clock.now

variable [DecidableEq K]

/-! ## Entries -/

/-- The live entry of `key`. -/
def live? (c : PlainCache K V) (key : K) : Option (Item V) :=
  (Table.find? key c.entries).filter fun item => !item.isExpiredAt c.now

/-- Forgets `key`. -/
def erase (c : PlainCache K V) (key : K) : PlainCache K V :=
  { c with entries := Table.without key c.entries }

/-- Puts an entry at the hot end, in place of any other of its key, and
    drops entries at the cold end if there are too many. -/
def place (c : PlainCache K V) (key : K) (item : Item V) : PlainCache K V :=
  let entries := Table.without key c.entries ++ [(key, item)]
  let surplus := if c.capacity = 0 then 0 else entries.length - c.capacity
  { c with entries := entries.drop surplus }

/-- Stores a value that lives for `ttl` from now on; under a negative
    lifetime it is gone at once. -/
def put (c : PlainCache K V) (key : K) (value : V) (ttl : Duration) : PlainCache K V :=
  if ttl.isNegative then c.erase key else c.place key ⟨value, expiryFrom c.now ttl⟩

/-- Answers the live value of `key`, whose entry moves to the hot end. -/
def get (c : PlainCache K V) (key : K) : Option V × PlainCache K V :=
  match c.live? key with
  | some item => (some item.value, c.place key item)
  | none => (none, c)

/-- Gives the live entry of `key` another item, and answers the old one. -/
def change (c : PlainCache K V) (key : K) (new : Item V → Item V) :
    Option (Item V) × PlainCache K V :=
  match c.live? key with
  | some item => (some item, c.place key (new item))
  | none => (none, c)

/-- Forgets several keys and answers the last of their live values. -/
def remove (c : PlainCache K V) : List K → Option V × PlainCache K V
  | [] => (none, c)
  | key :: rest =>
      let own := (c.live? key).map Item.value
      let (last, c) := (c.erase key).remove rest
      (last.or own, c)

/-- The milliseconds that an entry has left, or `Store.absentSpan` if there
    is none. -/
def span (c : PlainCache K V) (item : Option (Item V)) : Int :=
  item.elim Store.absentSpan fun item => item.remainingAt c.now

/-! ## Calls -/

/-- What a caller's computation does to a plain cache, how it ends, and what
    is to be kept of it. -/
abbrev Production (K V R : Type) := PlainCache K V → (Ending V × R) × PlainCache K V

/-- What a call answers, what is kept of the computation if it ran, and the
    plain cache after the call. -/
abbrev Outcome (K V R : Type) := (Except Fault (Reply K V) × Option R) × PlainCache K V

variable {R : Type}

/-- The outcome of a call that has run no computation. -/
def answer (reply : Reply K V) (c : PlainCache K V) : Outcome K V R := ((.ok reply, none), c)

/-- Stores a computed value under a key that is not live; whether there was
    one. -/
def putProduced (c : PlainCache K V) (key : K) (ttl : Duration)
    (produce : Production K V R) : Outcome K V R :=
  let ((ending, kept), c) := produce c
  match ending with
  | .value value => ((.ok (.flag true), some kept), c.put key value ttl)
  | ending => ((ending.toExcept.map fun _ => .flag false, some kept), c)

/-- Stores and answers a computed value under a key that is not live.

    An `exclusive` call stores it whatever has happened to the key meanwhile;
    any other call looks again whether the key is live.  Under a negative
    lifetime nothing is stored, and an exclusive call forgets the key whether
    or not it has come to a value, unless it panics. -/
def answerProduced (c : PlainCache K V) (key : K) (ttl : Duration) (exclusive : Bool)
    (produce : Production K V R) : Outcome K V R :=
  let ((ending, kept), c) := produce c
  match ending with
  | .value value =>
      let (present, c) := if exclusive || ttl.isNegative then (none, c) else c.get key
      if present.isSome then ((.ok (.value present), some kept), c)
      else ((.ok (.value (some value)), some kept), c.put key value ttl)
  | .panicked text => ((.error (.panic text), some kept), c)
  | ending =>
      let c := if exclusive && ttl.isNegative then c.erase key else c
      ((ending.toExcept.map Reply.value, some kept), c)

/-- Answers the live value of `key`, or else what `otherwise` comes to. -/
def getOr (c : PlainCache K V) (key : K) (otherwise : Outcome K V R) : Outcome K V R :=
  match c.get key with
  | (some value, c) => answer (.value (some value)) c
  | (none, _) => otherwise

/-- Does what `otherwise` does if `key` is not live and the lifetime is not
    negative. -/
def unlessLive (c : PlainCache K V) (key : K) (ttl : Duration) (otherwise : Outcome K V R) :
    Outcome K V R :=
  match c.get key with
  | (some _, c) => answer (.flag false) c
  | (none, c) => if ttl.isNegative then answer (.flag false) c else otherwise

/-- Carries out a call. -/
def call (c : PlainCache K V) (request : Request K V) (produce : Production K V R) :
    Outcome K V R :=
  match request with
  | .put key value ttl => answer .done (c.put key value ttl)
  | .putAll entries ttl =>
      answer .done (entries.foldl (fun c entry => c.put entry.1 entry.2 ttl) c)
  | .putIfAbsent key value ttl =>
      c.unlessLive key ttl (answer (.flag true) (c.put key value ttl))
  | .putIfAbsentFrom key ttl _ => c.unlessLive key ttl (c.putProduced key ttl produce)
  | .get key =>
      let (value, c) := c.get key
      answer (.value value) c
  | .getOrPut key (.given value) ttl =>
      c.getOr key (answer (.value (some value)) (c.put key value ttl))
  | .getOrPut key .produced ttl => c.getOr key (c.answerProduced key ttl true produce)
  | .getOrPutFrom key ttl exclusive =>
      c.getOr key (c.answerProduced key ttl exclusive produce)
  | .contains key =>
      let (value, c) := c.get key
      answer (.flag value.isSome) c
  | .lifetime key => answer (.span (c.span (c.live? key))) c
  | .replace key value =>
      let (old, c) := c.change key fun item => { item with value := value }
      answer (.replaced (old.map Item.value) old.isSome) c
  | .setLifetime key ttl =>
      let expireAt := expiryFrom c.now ttl
      let (old, c) := c.change key fun item => { item with expireAt := expireAt }
      answer (.span (c.span old)) c
  | .remove keys =>
      let (last, c) := c.remove keys
      answer (.value last) c
  | .size => answer (.count c.entries.length) c
  | .keys => answer (.keys (c.entries.map fun entry => entry.1)) c
  | .values => answer (.values (c.entries.map fun entry => entry.2.value)) c
  | .data => answer (.data (c.entries.map fun entry => (entry.1, entry.2.value))) c
  | .clear => answer .done { c with entries := [] }
  | .close => answer .done c
  | .stats => answer (.stats (.ofEntries c.entries.length)) c

/-! ## Commands -/

/-- What can be done around a plain cache. -/
inductive Command (K : Type) where
  -- forget those of some keys that are expired
  | forget (keys : List K)
  | advance (ms : Int)
  | setWall (wall : Int)

/-- Forgets those of some keys that are expired. -/
def forget (c : PlainCache K V) (keys : List K) : PlainCache K V :=
  { c with
    entries := c.entries.filter fun entry =>
      !(keys.contains entry.1 && entry.2.isExpiredAt c.now) }

/-- Carries out a command. -/
def command (c : PlainCache K V) : Command K → PlainCache K V
  | .forget keys => c.forget keys
  | .advance ms => { c with clock := c.clock.advance ms }
  | .setWall wall => { c with clock := c.clock.setTo wall }

/-- A plain cache as a party; `view` says what is shown of it. -/
def party {B : Type} (view : PlainCache K V → B) :
    Party (PlainCache K V) K V (Command K) Unit B where
  call := fun c request produce => c.call request produce
  command := fun c what => ((), c.command what)
  view := view

end PlainCache

end ExpiringCache
