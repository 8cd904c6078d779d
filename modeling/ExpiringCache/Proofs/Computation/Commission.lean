import ExpiringCache.Proofs.Computation.Flights

/-! # Calls that commission a computation

    There are five ways to hand in a computation for a key.  They differ in
    what the caller asks for, the value or whether one was stored, and in
    whether the computation runs under the flight of the key; but if the key
    is not live, and its flight is free where it matters, they all have the
    same course.  The call counts a miss, registers the flight, if any, and
    runs the computation; what it still has to do then depends on the ending
    alone. -/

namespace ExpiringCache

variable {K V : Type}

/-! ## The five calls -/

/-- A way to hand in a computation; `exclusive` if it is to run under the
    flight of its key. -/
inductive Commission where
  | putIfAbsent (exclusive : Bool)
  | getOrPut
  | getOrPutFrom (exclusive : Bool)
  deriving DecidableEq, Repr

namespace Commission

/-- The call itself. -/
def request (kind : Commission) (key : K) (ttl : Duration) : Request K V :=
  match kind with
  | .putIfAbsent exclusive => .putIfAbsentFrom key ttl exclusive
  | .getOrPut => .getOrPut key .produced ttl
  | .getOrPutFrom exclusive => .getOrPutFrom key ttl exclusive

/-- Whether the computation runs under the flight of its key. -/
def exclusive : Commission → Bool
  | .putIfAbsent exclusive => exclusive
  | .getOrPut => true
  | .getOrPutFrom exclusive => exclusive

/-- Whether the caller asks if something was stored, not for the value. -/
def asksStored : Commission → Bool
  | .putIfAbsent _ => true
  | _ => false

/-- The reply to the caller. -/
def reply (kind : Commission) (value : Option V) (stored : Bool) : Reply K V :=
  if kind.asksStored then .flag stored else .value value

/-- The write under the flight of the key. -/
def turn (kind : Commission) (key : K) (expireAt : Int) : Turn K V :=
  ⟨key, .produced, some expireAt, kind.asksStored⟩

/-- What the call does once the computation has ended, where `expireAt` is the
    end of a lifetime that started when the call began. -/
def next (kind : Commission) (key : K) (ttl : Duration) (expireAt : Int) : Pending K V :=
  if kind.exclusive then .lead (kind.turn key expireAt)
  else if kind.asksStored then .store key ttl
  else .offer key ttl

end Commission

namespace Cache

/-- The cache after it was asked for a key that is not live. -/
def missed (c : Cache K V) : Cache K V := { c.read with counters := c.counters.miss }

/-- The cache with other flights in progress. -/
def withFlights (c : Cache K V) (flights : Flights K) : Cache K V :=
  { c with store := { c.store with flights := flights } }

variable [DecidableEq K]

/-- The cache when the computation begins. -/
def commissioned (c : Cache K V) (kind : Commission) (key : K) : Cache K V :=
  if kind.exclusive then c.missed.led key else c.missed

variable {c : Cache K V} {key : K}

/-! ## Up to the computation -/

theorem get_eq_missed (hdead : c.store.live? c.now key = none) : c.get key = (none, c.missed) := by
  have hread : c.read.store.live? c.read.now key = none := by rwa [now_read]
  simp only [get, hread]
  rfl

omit [DecidableEq K] in
theorem now_missed (c : Cache K V) : c.missed.now = c.now := now_read c

omit [DecidableEq K] in
theorem read_missed (c : Cache K V) : c.missed.read = c.missed := by
  show { c.read.read with counters := c.counters.miss } = _
  rw [read_read]
  rfl

/-- A caller that is to compute under a free flight registers it. -/
theorem enterNew_missed (hdead : c.store.live? c.now key = none)
    (hfree : c.store.flights.isRunning key = false) {ttl : Duration}
    (hneg : ttl.isNegative = false) (asksStored : Bool) :
    c.missed.enterNew key .produced ttl asksStored =
      (.producing (.lead ⟨key, .produced, some (ExpiringCache.expiryFrom c.now ttl), asksStored⟩),
        c.missed.led key) := by
  rw [enterNew_of_nonnegative _ _ _ _ hneg]
  have hread : (c.missed.expiryFrom ttl).2.read = c.missed := by
    rw [read_expiryFrom, read_missed]
  have hfree' : (c.missed.expiryFrom ttl).2.store.flights.isRunning key = false := by
    rw [flights_expiryFrom]
    exact hfree
  have hfree'' : c.missed.store.flights.isRunning key = false := hfree
  have hdead' : c.missed.store.live? c.missed.now key = none := by rwa [now_missed]
  have hexpire : (c.missed.expiryFrom ttl).1 = ExpiringCache.expiryFrom c.now ttl :=
    congrArg (ExpiringCache.expiryFrom · ttl) c.now_missed
  simp only [enter, hread, hfree', Store.beginSetUnlessLive, hfree'', hdead', hexpire,
    Bool.false_eq_true, if_false]
  rfl

/-- A commission for a key that is not live comes to its computation, with
    nothing done but to count a miss and to register the flight. -/
theorem begin_request (kind : Commission) (hdead : c.store.live? c.now key = none)
    (hfree : kind.exclusive = true → c.store.flights.isRunning key = false) {ttl : Duration}
    (hneg : ttl.isNegative = false) :
    c.begin (kind.request key ttl) =
      (.producing (kind.next key ttl (ExpiringCache.expiryFrom c.now ttl)),
        c.commissioned kind key) := by
  have hget := get_eq_missed hdead
  have hcontains : c.contains key = (false, c.missed) := by
    rw [contains, hget]
    rfl
  cases kind with
  | putIfAbsent exclusive =>
      show c.beginPutIfAbsentFrom key ttl exclusive = _
      rw [beginPutIfAbsentFrom, hcontains]
      cases exclusive with
      | false => simp [hneg, Commission.next, Commission.exclusive, Commission.asksStored,
          commissioned]
      | true =>
          simp only [hneg, Bool.or_self, Bool.false_eq_true, if_false, if_true]
          exact enterNew_missed hdead (hfree rfl) hneg true
  | getOrPut =>
      show c.beginGetOrPut key .produced ttl = _
      rw [beginGetOrPut_of_none hget]
      exact enterNew_missed hdead (hfree rfl) hneg false
  | getOrPutFrom exclusive => cases exclusive with
    | false =>
        show c.beginGetOrOffer key ttl = _
        exact beginGetOrOffer_of_none hget ttl
    | true =>
        show c.beginGetOrPut key .produced ttl = _
        rw [beginGetOrPut_of_none hget]
        exact enterNew_missed hdead (hfree rfl) hneg false

/-! ## Scripts -/

variable {B : Type} (view : Cache K V → B)

/-- A call whose computation is a script, once it has come to it. -/
theorem run_of_producing {request : Request K V} {next : Pending K V} {start : Cache K V}
    (hbegin : c.begin request = (.producing next, start)) (body : List (Act K V Command))
    (ending : Ending V) :
    (party view).run (.call request body ending) c =
      (.call (((party view).runAll body start).2.finish next ending).1.result
          (some ((party view).runAll body start).1)
          (view (((party view).runAll body start).2.finish next ending).2),
        (((party view).runAll body start).2.finish next ending).2) := by
  simp only [Party.run]
  show (Report.call (c.call request _).1.1 (c.call request _).1.2 (view (c.call request _).2),
    (c.call request _).2) = _
  rw [call, hbegin]

/-- A call that is over at once does not run its computation. -/
theorem run_of_reply {request : Request K V} {reply : Reply K V} {c' : Cache K V}
    (hbegin : c.begin request = (.reply reply, c')) (body : List (Act K V Command))
    (ending : Ending V) :
    (party view).run (.call request body ending) c =
      (.call (.ok reply) none (view c'), c') := by
  simp only [Party.run]
  show (Report.call (c.call request _).1.1 (c.call request _).1.2 (view (c.call request _).2),
    (c.call request _).2) = _
  rw [call_of_reply hbegin]

/-- When the computation has ended, the flights are those with which it
    began. -/
theorem flights_commissioned (kind : Commission) (body : List (Act K V Command)) :
    ((party view).runAll body (c.commissioned kind key)).2.store.flights =
      if kind.exclusive then c.store.flights.enter key else c.store.flights := by
  rw [(restores_runAll view body _).flights, commissioned]
  split
  · rfl
  · rfl

end Cache

/-- What was seen of the computation of a commission, and the cache when it
    ended. -/
def Commission.during [DecidableEq K] {B : Type} (kind : Commission) (view : Cache K V → B)
    (c : Cache K V) (key : K) (body : List (Act K V Cache.Command)) :
    List (Report K V (Option SweepReport) B) × Cache K V :=
  (Cache.party view).runAll body (c.commissioned kind key)

end ExpiringCache
