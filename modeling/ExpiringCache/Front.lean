import ExpiringCache.Cache.Sweep
import ExpiringCache.Recorder

/-! # Fronts

    Callers talk to a front, which passes each call unchanged to the back
    end that is installed at that moment.  Another back end may be installed
    at any time, even by a computation while its call is under way; that
    call is then finished by the back end on which it began.

    All back ends go by the clock of the front.  The owner of a front may
    have kept hold of the cache behind it: such a cache is `held`, and can
    be swept and looked at. -/

namespace ExpiringCache

/-- What can stand behind a front. -/
inductive Backend (K V : Type) where
  -- a cache, and whether the owner of the front has kept hold of it
  | cache (cache : Cache K V) (held : Bool)
  | recorder (recorder : Recorder K V)

/-- A front with all back ends that were ever installed. -/
structure Front (K V : Type) where
  clock : Clock
  -- the back ends, the one installed first first
  backends : List (Backend K V)
  -- the place of the back end that takes new calls
  current : Nat

/-- What is left to do of a call once the caller's computation has ended. -/
inductive Front.Next (K V : Type) where
  | cache (next : Pending K V)
  | recorder (asksStored : Bool)

/-- How far a call on a front has come. -/
inductive Front.Progress (K V : Type) where
  -- it is over
  | done (result : Except Fault (Reply K V))
  -- the caller's computation is to run now; the back end at place `home` will go on
  | producing (home : Nat) (next : Front.Next K V)
  | waiting (home : Nat) (turn : Turn K V)

/-- What the owner of a front can do. -/
inductive Front.Command (K V : Type) where
  | sweep
  | advance (ms : Int)
  | setWall (wall : Int)
  | isClosed
  | capacity
  | record
  | installCache (capacity : Nat)
  | installRecorder (recorder : Recorder K V)

/-- The answer to a command.  What asks for something that is not there is
    answered by `none`. -/
inductive Front.Answer (K V : Type) where
  | done
  | swept (report : Option SweepReport)
  | closed (b : Option Bool)
  | capacity (n : Option Nat)
  | record (calls : Option (List (Request K V)))

namespace Front

variable {K V : Type}

/-- A front for one back end. -/
def new (clock : Clock) (backend : Backend K V) : Front K V := ⟨clock, [backend], 0⟩

/-- Installs a back end. -/
def install (f : Front K V) (backend : Backend K V) : Front K V :=
  { f with backends := f.backends ++ [backend], current := f.backends.length }

/-- The back end that takes new calls. -/
def backend? (f : Front K V) : Option (Backend K V) := f.backends[f.current]?

/-- The cache that takes new calls, if it is held; it goes by the clock of
    the front. -/
def held? (f : Front K V) : Option (Cache K V) :=
  match f.backend? with
  | some (.cache cache true) => some { cache with clock := f.clock }
  | _ => none

/-- Puts a cache back at its place, and its clock into the front. -/
def putCache (f : Front K V) (home : Nat) (cache : Cache K V) (held : Bool) : Front K V :=
  { f with clock := cache.clock, backends := f.backends.set home (.cache cache held) }

/-- Lets the cache at a place do something; `absent` if there is none. -/
def withCache {α : Type} (f : Front K V) (home : Nat) (absent : α)
    (action : Cache K V → α × Cache K V) : α × Front K V :=
  match f.backends[home]? with
  | some (.cache cache held) =>
      let (a, cache) := action { cache with clock := f.clock }
      (a, f.putCache home cache held)
  | _ => (absent, f)

/-- Lets the held cache do something. -/
def withHeld {α : Type} (f : Front K V) (action : Cache K V → α × Cache K V) :
    Option α × Front K V :=
  match f.held? with
  | none => (none, f)
  | some cache =>
      let (a, cache) := action cache
      (some a, f.putCache f.current cache true)

/-- The record of the recorder installed last. -/
def record? (f : Front K V) : Option (List (Request K V)) :=
  f.backends.reverse.findSome? fun
    | .recorder recorder => some recorder.calls
    | .cache _ _ => none

variable [DecidableEq K]

/-! ## Calls -/

/-- How far a call on a front has come when the cache at `home` got so far. -/
def Progress.ofCache (home : Nat) : ExpiringCache.Progress K V → Front.Progress K V
  | .done result => .done result
  | .producing next => .producing home (.cache next)
  | .waiting turn => .waiting home turn

/-- A call that no back end takes. -/
def lost : Front.Progress K V := .done (.error .stuck)

/-- Passes a call to the back end that takes new calls. -/
def begin (f : Front K V) (request : Request K V) : Front.Progress K V × Front K V :=
  match f.backend? with
  | some (.recorder recorder) =>
      let (recorded, recorder) := recorder.begin request
      let f := { f with backends := f.backends.set f.current (.recorder recorder) }
      match recorded with
      | .done result => (.done result, f)
      | .producing asksStored => (.producing f.current (.recorder asksStored), f)
  | _ =>
      f.withCache f.current lost fun cache =>
        let (progress, cache) := cache.begin request
        (.ofCache f.current progress, cache)

/-- Goes on with a call after the caller's computation has ended. -/
def finish (f : Front K V) (home : Nat) (next : Front.Next K V) (ending : Ending V) :
    Front.Progress K V × Front K V :=
  match next with
  | .recorder asksStored => (.done (Recorder.finish asksStored ending), f)
  | .cache next =>
      f.withCache home lost fun cache =>
        let (progress, cache) := cache.finish next ending
        (.ofCache home progress, cache)

/-- Lets a waiting call look up the flight of its key again. -/
def enter (f : Front K V) (home : Nat) (turn : Turn K V) : Front.Progress K V × Front K V :=
  f.withCache home lost fun cache =>
    let (progress, cache) := cache.enter turn
    (.ofCache home progress, cache)

/-- Lets a waiting call take the value of the leader. -/
def join (f : Front K V) (home : Nat) (turn : Turn K V) (value : Option V) :
    Except Fault (Reply K V) × Front K V :=
  f.withCache home (.error .stuck) fun cache =>
    let (reply, cache) := cache.join turn value
    (.ok reply, cache)

/-! ## Commands -/

/-- Carries out a command. -/
def command (f : Front K V) : Front.Command K V → Front.Answer K V × Front K V
  | .sweep =>
      let (report, f) := f.withHeld Cache.sweep
      (.swept report, f)
  | .advance ms => (.done, { f with clock := f.clock.advance ms })
  | .setWall wall => (.done, { f with clock := f.clock.setTo wall })
  | .isClosed => (.closed (f.held?.map Cache.closed), f)
  | .capacity => (.capacity (f.held?.map Cache.capacity), f)
  | .record => (.record f.record?, f)
  | .installCache capacity => (.done, f.install (.cache (.new capacity f.clock) true))
  | .installRecorder recorder => (.done, f.install (.recorder recorder))

/-- What is shown of a front. -/
structure View where
  now : Int
  stats : Option Stats
  deriving DecidableEq, Repr

/-- What a front shows now. -/
def view (f : Front K V) : View := ⟨f.clock.now, f.held?.map Cache.stats⟩

/-- Everything that the held cache stores: keys with their values and the
    spans that a caller would be told, in no particular order. -/
def contents? (f : Front K V) : Option (List (K × V × Int)) :=
  f.held?.map fun cache =>
    cache.data.map fun entry => (entry.1, entry.2, (cache.lifetime entry.1).1)

end Front

end ExpiringCache
